/-
# Fallible computations

Inversion and invariant rules for computations in `Except`: how a sequence that returns must have
returned at each step, and how a property that every step keeps survives a fallible fold.
-/

import Mathlib.Logic.Basic

namespace RustStd

universe u

variable {ε α β σ : Type u}

/-- A sequence returns exactly when its first part does and the rest returns from there. -/
theorem bind_eq_ok_iff {x : Except ε α} {f : α → Except ε β} {b : β} :
    (x >>= f) = .ok b ↔ ∃ a, x = .ok a ∧ f a = .ok b := by
  cases x with
  | error e =>
      constructor
      · intro h
        cases h
      · rintro ⟨_, h, _⟩
        cases h
  | ok a =>
      constructor
      · intro h
        exact ⟨a, rfl, h⟩
      · rintro ⟨_, h, hf⟩
        cases h
        exact hf

@[simp]
theorem ok_bind (a : α) (f : α → Except ε β) : (Except.ok a >>= f) = f a := rfl

@[simp]
theorem error_bind (e : ε) (f : α → Except ε β) :
    ((Except.error e : Except ε α) >>= f) = .error e := rfl

@[simp]
theorem pure_eq_ok_iff {a b : α} : (pure a : Except ε α) = .ok b ↔ a = b :=
  Except.ok.injEq a b ▸ Iff.rfl

/-- A sequence fails exactly when its first part does or the rest does from what that returns. -/
theorem bind_eq_error_iff {x : Except ε α} {f : α → Except ε β} {e : ε} :
    (x >>= f) = .error e ↔ x = .error e ∨ ∃ a, x = .ok a ∧ f a = .error e := by
  cases x with
  | error e' =>
      constructor
      · intro h
        exact Or.inl (congrArg Except.error (Except.error.inj h))
      · rintro (h | ⟨_, h, _⟩)
        · exact congrArg Except.error (Except.error.inj h)
        · cases h
  | ok a =>
      constructor
      · intro h
        exact Or.inr ⟨a, rfl, h⟩
      · rintro (h | ⟨_, h, hf⟩)
        · cases h
        · cases h
          exact hf

/-- A fold that fails does so at one of its steps. -/
theorem exists_of_foldlM_eq_error {step : σ → α → Except ε σ} {l : List α} {s : σ} {e : ε}
    (h : l.foldlM step s = .error e) : ∃ s', ∃ a ∈ l, step s' a = .error e := by
  induction l generalizing s with
  | nil => cases h
  | cons a l ih =>
      rw [List.foldlM_cons, bind_eq_error_iff] at h
      rcases h with h | ⟨mid, -, h⟩
      · exact ⟨s, a, List.mem_cons_self, h⟩
      · rcases ih h with ⟨s', b, hb, h⟩
        exact ⟨s', b, List.mem_cons_of_mem a hb, h⟩

/-- Whether a computation returns something with a property. -/
instance decidableExistsOk {x : Except ε α} {P : α → Prop} [DecidablePred P] :
    Decidable (∃ a, x = .ok a ∧ P a) :=
  match x with
  | .ok a => decidable_of_iff (P a)
      ⟨fun h => ⟨a, rfl, h⟩, fun ⟨_, heq, h⟩ => Except.ok.inj heq ▸ h⟩
  | .error _ => isFalse fun ⟨_, heq, _⟩ => by cases heq

/-- Whether a computation fails in a given way. -/
instance decidableEqError [DecidableEq ε] {x : Except ε α} {e : ε} : Decidable (x = .error e) :=
  match x with
  | .ok _ => isFalse nofun
  | .error e' => decidable_of_iff (e' = e) ⟨congrArg Except.error, Except.error.inj⟩

/-- A fold that returns keeps whatever each of its steps keeps. -/
theorem foldlM_preserves {P : σ → Prop} {step : σ → α → Except ε σ} {l : List α}
    (hstep : ∀ s a s', a ∈ l → P s → step s a = .ok s' → P s') {s s' : σ} (hs : P s)
    (h : l.foldlM step s = .ok s') : P s' := by
  induction l generalizing s with
  | nil =>
      rw [List.foldlM_nil, pure_eq_ok_iff] at h
      exact h ▸ hs
  | cons a l ih =>
      rw [List.foldlM_cons, bind_eq_ok_iff] at h
      obtain ⟨mid, hmid, hrest⟩ := h
      exact ih (fun s a s' ha => hstep s a s' (List.mem_cons_of_mem _ ha))
        (hstep s a mid List.mem_cons_self hs hmid) hrest

/-- A fold that returns has what each step keeps and one of its elements brings. -/
theorem foldlM_brings {P : σ → Prop} {brings : α → Prop} {step : σ → α → Except ε σ} {l : List α}
    (hstep : ∀ s a s', step s a = .ok s' → brings a ∨ P s → P s') {s s' : σ}
    (h : l.foldlM step s = .ok s') (hsome : (∃ a ∈ l, brings a) ∨ P s) : P s' := by
  induction l generalizing s with
  | nil =>
      rw [List.foldlM_nil, pure_eq_ok_iff] at h
      rcases hsome with ⟨a, ha, -⟩ | hs
      · cases ha
      · exact h ▸ hs
  | cons a l ih =>
      rw [List.foldlM_cons, bind_eq_ok_iff] at h
      obtain ⟨mid, hmid, hrest⟩ := h
      refine ih hrest ?_
      rcases hsome with ⟨b, hb, hbrings⟩ | hs
      · rcases List.mem_cons.1 hb with rfl | hb
        · exact Or.inr (hstep s b mid hmid (Or.inl hbrings))
        · exact Or.inl ⟨b, hb, hbrings⟩
      · exact Or.inr (hstep s a mid hmid (Or.inr hs))

/-- A fold returns when each of its steps does and keeps what lets the next one return. -/
theorem exists_foldlM {P : σ → Prop} {step : σ → α → Except ε σ} {l : List α}
    (hstep : ∀ s, ∀ a ∈ l, P s → ∃ s', step s a = .ok s' ∧ P s') {s : σ} (hs : P s) :
    ∃ s', l.foldlM step s = .ok s' ∧ P s' := by
  induction l generalizing s with
  | nil => exact ⟨s, rfl, hs⟩
  | cons a l ih =>
      obtain ⟨mid, hmid, hs⟩ := hstep s a List.mem_cons_self hs
      obtain ⟨s', hrun, hs'⟩ := ih (fun s b hb => hstep s b (List.mem_cons_of_mem _ hb)) hs
      exact ⟨s', by rw [List.foldlM_cons, hmid, ok_bind, hrun], hs'⟩

/-- A fold does not return when one of its steps never does. -/
theorem foldlM_ne_ok {P : σ → Prop} {step : σ → α → Except ε σ} {l : List α}
    (hstep : ∀ s a s', a ∈ l → P s → step s a = .ok s' → P s') {a : α} (ha : a ∈ l)
    (hnever : ∀ s s', P s → step s a ≠ .ok s') {s s' : σ} (hs : P s) :
    l.foldlM step s ≠ .ok s' := by
  induction l generalizing s with
  | nil => cases ha
  | cons b l ih =>
      intro h
      rw [List.foldlM_cons, bind_eq_ok_iff] at h
      obtain ⟨mid, hmid, hrest⟩ := h
      rcases List.mem_cons.1 ha with rfl | ha
      · exact hnever s mid hs hmid
      · exact ih (fun s c s' hc => hstep s c s' (List.mem_cons_of_mem _ hc)) ha
          (hstep s b mid List.mem_cons_self hs hmid) hrest

section

variable {step : σ → α → Except ε σ} {good : α → Prop} {I : List α → σ → Prop}

/-- A fold that returns met only good elements, and leaves what its steps make of the elements
met. -/
theorem foldlM_of_steps {l : List α}
    (hstep : ∀ done, ∀ a ∈ l, ∀ s s', I done s → step s a = .ok s' → good a ∧ I (done ++ [a]) s')
    (done : List α) {s s' : σ} (hs : I done s) (h : l.foldlM step s = .ok s') :
    (∀ a ∈ l, good a) ∧ I (done ++ l) s' := by
  induction l generalizing done s with
  | nil =>
      obtain rfl := pure_eq_ok_iff.1 h
      exact ⟨fun a ha => absurd ha List.not_mem_nil, (List.append_nil done).symm ▸ hs⟩
  | cons a l ih =>
      rw [List.foldlM_cons, bind_eq_ok_iff] at h
      obtain ⟨mid, hmid, h⟩ := h
      obtain ⟨ha, hI⟩ := hstep done a List.mem_cons_self s mid hs hmid
      obtain ⟨hl, hI'⟩ := ih (fun done b hb => hstep done b (List.mem_cons_of_mem a hb)) _ hI h
      exact ⟨List.forall_mem_cons.2 ⟨ha, hl⟩, List.append_cons done a l ▸ hI'⟩

/-- A fold returns when each step does on a good element, from what the steps before leave. -/
theorem exists_foldlM_of_steps {l : List α}
    (hstep : ∀ done, ∀ a ∈ l, ∀ s s', I done s → step s a = .ok s' → good a ∧ I (done ++ [a]) s')
    (hgood : ∀ done, ∀ a ∈ l, ∀ s, I done s → good a → ∃ s', step s a = .ok s')
    (done : List α) {s : σ} (hs : I done s) (hl : ∀ a ∈ l, good a) :
    ∃ s', l.foldlM step s = .ok s' := by
  induction l generalizing done s with
  | nil => exact ⟨s, rfl⟩
  | cons a l ih =>
      have ha : a ∈ a :: l := List.mem_cons_self
      obtain ⟨mid, hmid⟩ := hgood done a ha s hs (hl a ha)
      obtain ⟨s', hs'⟩ := ih (fun done b hb => hstep done b (List.mem_cons_of_mem a hb))
        (fun done b hb => hgood done b (List.mem_cons_of_mem a hb)) (done ++ [a])
        (hstep done a ha s mid hs hmid).2 fun b hb => hl b (List.mem_cons_of_mem a hb)
      exact ⟨s', by rw [List.foldlM_cons, hmid, ok_bind, hs']⟩

end

/-- A fold each step of which adds what it reads is a map, then one addition. -/
theorem foldlM_eq_mapM {step : σ → α → Except ε σ} {read : α → Except ε β}
    (add : σ → List β → σ) (hnil : ∀ s, add s [] = s)
    (hcons : ∀ s b bs, add (add s [b]) bs = add s (b :: bs)) {l : List α}
    (hstep : ∀ s, ∀ a ∈ l, step s a = do let b ← read a; return add s [b]) (s : σ) :
    l.foldlM step s = do let bs ← l.mapM read; return add s bs := by
  induction l generalizing s with
  | nil => exact congrArg Except.ok (hnil s).symm
  | cons a l ih =>
      rw [List.foldlM_cons, List.mapM_cons, hstep s a List.mem_cons_self]
      cases read a with
      | error e => rfl
      | ok b =>
          show l.foldlM step (add s [b]) = _
          rw [ih fun s c hc => hstep s c (List.mem_cons_of_mem _ hc)]
          cases l.mapM read with
          | error e => rfl
          | ok bs => exact congrArg Except.ok (hcons s b bs)

/-- A list is mapped when each of its elements is. -/
theorem exists_mapM {f : α → Except ε β} {l : List α} (h : ∀ a ∈ l, ∃ b, f a = .ok b) :
    ∃ l', l.mapM f = .ok l' := by
  induction l with
  | nil => exact ⟨[], rfl⟩
  | cons a l ih =>
      obtain ⟨b, hb⟩ := h a List.mem_cons_self
      obtain ⟨l', hl'⟩ := ih fun a ha => h a (List.mem_cons_of_mem _ ha)
      exact ⟨b :: l', by rw [List.mapM_cons, hb, ok_bind, hl']; rfl⟩

/-- A list each element of which is mapped to a known value. -/
theorem mapM_eq_ok_map {f : α → Except ε β} {g : α → β} {l : List α}
    (h : ∀ a ∈ l, f a = .ok (g a)) : l.mapM f = .ok (l.map g) := by
  induction l with
  | nil => rfl
  | cons a l ih =>
      rw [List.mapM_cons, h a List.mem_cons_self, ok_bind,
        ih fun b hb => h b (List.mem_cons_of_mem _ hb)]
      rfl

/-- What a mapped list holds is what the mapped elements give. -/
theorem mem_mapM_iff {f : α → Except ε β} {l : List α} {l' : List β} (h : l.mapM f = .ok l')
    (b : β) : b ∈ l' ↔ ∃ a ∈ l, f a = .ok b := by
  induction l generalizing l' with
  | nil =>
      rw [List.mapM_nil, pure_eq_ok_iff] at h
      subst h
      simp
  | cons a l ih =>
      simp only [List.mapM_cons, bind_eq_ok_iff, pure_eq_ok_iff] at h
      obtain ⟨c, hc, cs, hcs, rfl⟩ := h
      simp only [List.mem_cons, ih hcs, exists_eq_or_imp, hc, Except.ok.injEq]
      exact or_congr eq_comm Iff.rfl

/-- Every element of a mapped list is mapped. -/
theorem exists_of_mapM {f : α → Except ε β} {l : List α} {l' : List β} (h : l.mapM f = .ok l') :
    ∀ a ∈ l, ∃ b, f a = .ok b := by
  induction l generalizing l' with
  | nil => simp
  | cons a l ih =>
      simp only [List.mapM_cons, bind_eq_ok_iff] at h
      obtain ⟨c, hc, cs, hcs, -⟩ := h
      intro b hb
      rcases List.mem_cons.1 hb with rfl | hb
      · exact ⟨c, hc⟩
      · exact ih hcs b hb

/-- What a mapped list shows is what the list shows, when each mapped element does. -/
theorem map_of_mapM {γ : Type u} {f : α → Except ε β} {g : β → γ} {k : α → γ} {l : List α}
    {l' : List β} (hshow : ∀ a ∈ l, ∀ b, f a = .ok b → g b = k a) (h : l.mapM f = .ok l') :
    l'.map g = l.map k := by
  induction l generalizing l' with
  | nil =>
      rw [List.mapM_nil, pure_eq_ok_iff] at h
      subst h
      rfl
  | cons a l ih =>
      simp only [List.mapM_cons, bind_eq_ok_iff, pure_eq_ok_iff] at h
      obtain ⟨b, hb, bs, hbs, rfl⟩ := h
      rw [List.map_cons, List.map_cons, hshow a List.mem_cons_self b hb,
        ih (fun a ha => hshow a (List.mem_cons_of_mem _ ha)) hbs]

/-- A mapped list has the length of the list. -/
theorem length_of_mapM {f : α → Except ε β} {l : List α} {l' : List β} (h : l.mapM f = .ok l') :
    l'.length = l.length := by
  induction l generalizing l' with
  | nil =>
      rw [List.mapM_nil, pure_eq_ok_iff] at h
      subst h
      rfl
  | cons a l ih =>
      simp only [List.mapM_cons, bind_eq_ok_iff, pure_eq_ok_iff] at h
      obtain ⟨b, -, bs, hbs, rfl⟩ := h
      rw [List.length_cons, List.length_cons, ih hbs]

end RustStd
