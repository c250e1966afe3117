/-
# Readings

A reader takes a value out of an input.  A field that is missing ends the reading without a value,
and a conversion that fails is an error.  What a reader asks of its input, in the order in which it
asks, tells how the reading ends.
-/

import Mathlib.Logic.Basic
import Mathlib.Data.List.Basic

namespace Lib

universe u

/-- What a reader asks of its input. -/
inductive Reading
  /-- A field, without which the reading ends. -/
  | field (present : Bool)
  /-- A conversion, which must succeed. -/
  | conversion (succeeds : Bool)
deriving DecidableEq, Repr

namespace Reading

/-- Whether a reading has what it asks for. -/
def Met : Reading → Prop
  | field present => present = true
  | conversion succeeds => succeeds = true

instance (r : Reading) : Decidable r.Met :=
  match r with
  | field present => inferInstanceAs (Decidable (present = true))
  | conversion succeeds => inferInstanceAs (Decidable (succeeds = true))

/-- Whether every reading has what it asks for. -/
def Complete (l : List Reading) : Prop := ∀ r ∈ l, r.Met

instance (l : List Reading) : Decidable (Complete l) :=
  inferInstanceAs (Decidable (∀ r ∈ l, r.Met))

/-- Whether every conversion that comes before the first missing field succeeds. -/
def Harmless : List Reading → Prop
  | [] => True
  | field present :: l => present = true → Harmless l
  | conversion succeeds :: l => succeeds = true ∧ Harmless l

instance Harmless.decidable : ∀ l : List Reading, Decidable (Harmless l)
  | [] => isTrue trivial
  | field present :: l =>
      have := Harmless.decidable l
      inferInstanceAs (Decidable (present = true → Harmless l))
  | conversion succeeds :: l =>
      have := Harmless.decidable l
      inferInstanceAs (Decidable (succeeds = true ∧ Harmless l))

@[simp]
theorem complete_nil : Complete [] := List.forall_mem_nil _

theorem complete_cons {r : Reading} {l : List Reading} :
    Complete (r :: l) ↔ r.Met ∧ Complete l := List.forall_mem_cons

theorem complete_append {l l' : List Reading} :
    Complete (l ++ l') ↔ Complete l ∧ Complete l' := List.forall_mem_append

/-- The readings that come later matter once the earlier ones are complete. -/
theorem harmless_append {l l' : List Reading} :
    Harmless (l ++ l') ↔ Harmless l ∧ (Complete l → Harmless l') := by
  induction l with
  | nil => simp [Harmless]
  | cons r l ih =>
      rw [List.cons_append, complete_cons]
      cases r with
      | field present =>
          rw [Harmless, Harmless, ih, Met]
          tauto
      | conversion succeeds =>
          rw [Harmless, Harmless, ih, Met]
          tauto

theorem Complete.harmless {l : List Reading} (h : Complete l) : Harmless l := by
  induction l with
  | nil => trivial
  | cons r l ih =>
      rcases complete_cons.1 h with ⟨hr, hl⟩
      cases r with
      | field present => exact fun _ => ih hl
      | conversion succeeds => exact ⟨hr, ih hl⟩

end Reading

open Reading

variable {ε α β : Type u}

/-- A missing value ends the reading. -/
instance liftOption : MonadLift Option (OptionT (Except ε)) := ⟨fun x => OptionT.mk (pure x)⟩

/-! ## When a reader returns a value -/

theorem run_bind_eq_some_iff {x : OptionT (Except ε) α} {f : α → OptionT (Except ε) β} {b : β} :
    (x >>= f).run = .ok (some b) ↔ ∃ a, x.run = .ok (some a) ∧ (f a).run = .ok (some b) := by
  rw [OptionT.run_bind]
  cases x.run with
  | error e =>
      refine iff_of_false nofun ?_
      rintro ⟨_, h, _⟩
      cases h
  | ok a? =>
      cases a? with
      | none =>
          refine iff_of_false nofun ?_
          rintro ⟨_, h, _⟩
          cases h
      | some a =>
          constructor
          · exact fun h => ⟨a, rfl, h⟩
          · rintro ⟨_, h, hf⟩
            cases h
            exact hf

theorem run_lift_eq_some_iff {x : Except ε α} {a : α} :
    (OptionT.lift x).run = .ok (some a) ↔ x = .ok a := by
  cases x with
  | error e => exact iff_of_false nofun nofun
  | ok b =>
      constructor
      · intro h
        cases h
        rfl
      · intro h
        cases h
        rfl

theorem run_option_eq_some_iff {x : Option α} {a : α} :
    (liftM x : OptionT (Except ε) α).run = .ok (some a) ↔ x = some a :=
  ⟨fun h => Except.ok.inj h, fun h => congrArg Except.ok h⟩

/-- A value that is there is handed over. -/
theorem option_some_bind (a : α) (f : α → OptionT (Except ε) β) :
    (liftM (some a) : OptionT (Except ε) α) >>= f = f a := rfl

theorem run_pure_eq_some_iff {a b : α} :
    (pure a : OptionT (Except ε) α).run = .ok (some b) ↔ a = b :=
  ⟨fun h => Option.some.inj (Except.ok.inj h), fun h => congrArg (Except.ok ∘ some) h⟩

/-- Readers that all return a value, one for each element of a list. -/
theorem exists_run_mapM {f : α → OptionT (Except ε) β} {P : α → β → Prop} {l : List α}
    (h : ∀ a ∈ l, ∃ b, (f a).run = .ok (some b) ∧ P a b) :
    ∃ bs, (l.mapM f).run = .ok (some bs) ∧ List.Forall₂ P l bs := by
  induction l with
  | nil => exact ⟨[], rfl, .nil⟩
  | cons a l ih =>
      rcases List.forall_mem_cons.1 h with ⟨⟨b, hb, hP⟩, hl⟩
      rcases ih hl with ⟨bs, hbs, hPs⟩
      rw [List.mapM_cons]
      exact ⟨b :: bs, run_bind_eq_some_iff.2 ⟨b, hb, run_bind_eq_some_iff.2 ⟨bs, hbs, rfl⟩⟩,
        .cons hP hPs⟩

/-- What is returned for a list is returned for its elements. -/
theorem exists_of_run_mapM {f : α → OptionT (Except ε) β} {l : List α} {bs : List β}
    (h : (l.mapM f).run = .ok (some bs)) : ∀ b ∈ bs, ∃ a ∈ l, (f a).run = .ok (some b) := by
  induction l generalizing bs with
  | nil =>
      cases h
      exact List.forall_mem_nil _
  | cons a l ih =>
      rw [List.mapM_cons] at h
      rcases run_bind_eq_some_iff.1 h with ⟨b, hb, h⟩
      rcases run_bind_eq_some_iff.1 h with ⟨bs', hbs, h⟩
      obtain rfl := run_pure_eq_some_iff.1 h
      refine List.forall_mem_cons.2 ⟨⟨a, List.mem_cons_self, hb⟩, fun b' hb' => ?_⟩
      rcases ih hbs b' hb' with ⟨a', ha', hread⟩
      exact ⟨a', List.mem_cons_of_mem _ ha', hread⟩

/-- A list that is read has each of its elements read. -/
theorem forall_of_run_mapM {f : α → OptionT (Except ε) β} {l : List α} {bs : List β}
    (h : (l.mapM f).run = .ok (some bs)) : ∀ a ∈ l, ∃ b, (f a).run = .ok (some b) := by
  induction l generalizing bs with
  | nil => exact List.forall_mem_nil _
  | cons a l ih =>
      rw [List.mapM_cons] at h
      rcases run_bind_eq_some_iff.1 h with ⟨b, hb, h⟩
      rcases run_bind_eq_some_iff.1 h with ⟨bs', hbs, -⟩
      exact List.forall_mem_cons.2 ⟨⟨b, hb⟩, ih hbs⟩

/-- Readers that all return a known value, one for each element of a list. -/
theorem run_mapM_eq_map {f : α → OptionT (Except ε) β} {g : α → β} {l : List α}
    (h : ∀ a ∈ l, (f a).run = .ok (some (g a))) : (l.mapM f).run = .ok (some (l.map g)) := by
  induction l with
  | nil => rfl
  | cons a l ih =>
      rw [List.mapM_cons]
      exact run_bind_eq_some_iff.2 ⟨_, h a List.mem_cons_self, run_bind_eq_some_iff.2
        ⟨_, ih fun b hb => h b (List.mem_cons_of_mem _ hb), rfl⟩⟩

/-- Some readings tell how a reader ends: it does not fail exactly when they are harmless, and it
returns a value exactly when they are complete. -/
structure Reads (x : OptionT (Except ε) α) (l : List Reading) : Prop where
  harmless_iff : (∃ a?, x.run = .ok a?) ↔ Harmless l
  complete_iff : (∃ a, x.run = .ok (some a)) ↔ Complete l

namespace Reads

theorem pure (a : α) : Reads (Pure.pure a : OptionT (Except ε) α) [] where
  harmless_iff := iff_of_true ⟨some a, rfl⟩ trivial
  complete_iff := iff_of_true ⟨a, rfl⟩ complete_nil

/-- A reader that is known to return a value. -/
theorem of_run {x : OptionT (Except ε) α} {l : List Reading} {a : α}
    (h : x.run = .ok (some a)) (hl : Complete l) : Reads x l where
  harmless_iff := iff_of_true ⟨some a, h⟩ hl.harmless
  complete_iff := iff_of_true ⟨a, h⟩ hl

/-- Readings that ask for the same. -/
theorem of_iff {x : OptionT (Except ε) α} {l l' : List Reading} (h : Reads x l)
    (hharmless : Harmless l ↔ Harmless l') (hcomplete : Complete l ↔ Complete l') :
    Reads x l' where
  harmless_iff := h.harmless_iff.trans hharmless
  complete_iff := h.complete_iff.trans hcomplete

/-- A value that may be missing. -/
theorem option (x : Option α) :
    Reads (liftM x : OptionT (Except ε) α) [field x.isSome] where
  harmless_iff := iff_of_true ⟨x, rfl⟩ fun _ => trivial
  complete_iff := by
    simp only [run_option_eq_some_iff, complete_cons, Met, complete_nil, and_true,
      Option.isSome_iff_exists]

theorem failure : Reads (Alternative.failure : OptionT (Except ε) α) [field false] :=
  Reads.option none

/-- A computation that may fail. -/
theorem except {x : Except ε α} {succeeds : Bool} (h : (∃ a, x = .ok a) ↔ succeeds = true) :
    Reads (OptionT.lift x) [conversion succeeds] where
  harmless_iff := by
    rw [Harmless, Harmless, and_true, ← h]
    cases x with
    | error e => exact iff_of_false (by rintro ⟨_, h⟩; cases h) (by rintro ⟨_, h⟩; cases h)
    | ok a => exact iff_of_true ⟨some a, rfl⟩ ⟨a, rfl⟩
  complete_iff := by
    simp only [run_lift_eq_some_iff, complete_cons, Met, complete_nil, and_true, h]

/-- The result of a reader, which may be no value. -/
theorem attempt {x : OptionT (Except ε) α} {l : List Reading} (h : Reads x l) :
    Reads (OptionT.lift x.run) [conversion (decide (Harmless l))] :=
  Reads.except (h.harmless_iff.trans decide_eq_true_iff.symm)

/-- One reader after another; what the second one asks for may be known from the value that the
first one returns. -/
theorem bind {x : OptionT (Except ε) α} {f : α → OptionT (Except ε) β} {l l' : List Reading}
    (hx : Reads x l) (hf : ∀ a, x.run = .ok (some a) → Reads (f a) l') :
    Reads (x >>= f) (l ++ l') := by
  cases hrun : x.run with
  | error e =>
      have hbind : (x >>= f).run = .error e := by
        rw [OptionT.run_bind, hrun]
        rfl
      have hharm : ¬ Harmless l := fun h => by
        rcases hx.harmless_iff.2 h with ⟨a?, ha⟩
        rw [hrun] at ha
        cases ha
      refine ⟨iff_of_false ?_ fun h => hharm (harmless_append.1 h).1,
        iff_of_false ?_ fun h => hharm (complete_append.1 h).1.harmless⟩
      · rw [hbind]
        rintro ⟨_, h⟩
        cases h
      · rw [hbind]
        rintro ⟨_, h⟩
        cases h
  | ok a? =>
      have hharm : Harmless l := hx.harmless_iff.1 ⟨a?, hrun⟩
      cases a? with
      | none =>
          have hbind : (x >>= f).run = .ok none := by
            rw [OptionT.run_bind, hrun]
            rfl
          have hpart : ¬ Complete l := fun h => by
            rcases hx.complete_iff.2 h with ⟨a, ha⟩
            rw [hrun] at ha
            cases ha
          refine ⟨iff_of_true ⟨none, hbind⟩ (harmless_append.2 ⟨hharm, fun h => absurd h hpart⟩),
            iff_of_false ?_ fun h => hpart (complete_append.1 h).1⟩
          rw [hbind]
          rintro ⟨_, h⟩
          cases h
      | some a =>
          have hbind : (x >>= f).run = (f a).run := by
            rw [OptionT.run_bind, hrun]
            rfl
          have hfull : Complete l := hx.complete_iff.1 ⟨a, hrun⟩
          constructor
          · rw [hbind, (hf a hrun).harmless_iff, harmless_append]
            exact ⟨fun h => ⟨hharm, fun _ => h⟩, fun h => h.2 hfull⟩
          · rw [hbind, (hf a hrun).complete_iff, complete_append]
            exact ⟨fun h => ⟨hfull, h⟩, fun h => h.2⟩

/-- A reader made of two, before the rest. -/
theorem bind_pair {γ : Type u} {x : OptionT (Except ε) α} {f : α → OptionT (Except ε) β}
    {g : β → OptionT (Except ε) γ} {l l' : List Reading} (hx : Reads (x >>= f) l)
    (hg : ∀ b, Reads (g b) l') : Reads (x >>= fun a => f a >>= g) (l ++ l') := by
  rw [← bind_assoc]
  exact hx.bind fun b _ => hg b

/-- The last reader, whose value is only wrapped. -/
theorem map {x : OptionT (Except ε) α} {l : List Reading} (hx : Reads x l) (f : α → β) :
    Reads (x >>= fun a => Pure.pure (f a)) l := by
  have h := hx.bind fun a _ => Reads.pure (ε := ε) (f a)
  rwa [List.append_nil] at h

/-- A reader for each element of a list. -/
theorem mapM {f : α → OptionT (Except ε) β} {readings : α → List Reading} {l : List α}
    (h : ∀ a ∈ l, Reads (f a) (readings a)) : Reads (l.mapM f) (l.flatMap readings) := by
  induction l with
  | nil => exact Reads.pure []
  | cons a l ih =>
      rw [List.mapM_cons, List.flatMap_cons]
      have htail := ih fun b hb => h b (List.mem_cons_of_mem _ hb)
      exact (h a List.mem_cons_self).bind fun b _ => htail.map (b :: ·)

end Reads

end Lib
