/-
# Grouping a list

A loop that keeps a map of groups: each element is added to what the map holds for its group.  Each
group ends as what its elements make of it one after the other, whatever stands between them.
-/

import Durs.RustStd.HashMap
import Durs.RustStd.Result

namespace RustStd

namespace HashMap

variable {ε α K V : Type} [DecidableEq K] (base : K → V) (f : V → α → V) {m m' : HashMap K V}

/-- The groups after a fallible loop. -/
theorem get?_foldlM_group (key : α → Option K)
    {step : HashMap K V → α → Except ε (HashMap K V)} {l : List α}
    (hstep : ∀ m a m', step m a = .ok m' →
      ∃ k, key a = some k ∧ m' = m.insert k (f ((m.get? k).getD (base k)) a))
    (h : l.foldlM step m = .ok m') (k : K) :
    m'.get? k = if (l.filter (key · = some k)).isEmpty then m.get? k
      else some ((l.filter (key · = some k)).foldl f ((m.get? k).getD (base k))) := by
  induction l generalizing m with
  | nil =>
      rw [List.foldlM_nil, pure_eq_ok_iff] at h
      rw [← h]
      rfl
  | cons a l ih =>
      rw [List.foldlM_cons, bind_eq_ok_iff] at h
      rcases h with ⟨mid, hmid, hrest⟩
      rcases hstep m a mid hmid with ⟨ka, hka, rfl⟩
      rw [ih hrest]
      by_cases hk : ka = k
      · subst hk
        have hfilter : (a :: l).filter (key · = some ka) = a :: l.filter (key · = some ka) :=
          List.filter_cons_of_pos (decide_eq_true hka)
        rw [get?_insert_self, hfilter]
        cases hempty : (l.filter (key · = some ka)).isEmpty with
        | true =>
            rw [List.isEmpty_iff.1 hempty]
            rfl
        | false => rfl
      · have hkey : ¬ key a = some k := fun heq => hk (Option.some.inj (hka.symm.trans heq))
        have hfilter : (a :: l).filter (key · = some k) = l.filter (key · = some k) :=
          List.filter_cons_of_neg (by simpa using hkey)
        rw [get?_insert_of_ne _ _ (fun heq => hk heq.symm), hfilter]

/-- The groups after a loop. -/
theorem get?_foldl_group (key : α → K) {step : HashMap K V → α → HashMap K V} {l : List α}
    (hstep : ∀ m a, step m a = m.insert (key a) (f ((m.get? (key a)).getD (base (key a))) a))
    (k : K) :
    (l.foldl step m).get? k = if (l.filter (key · = k)).isEmpty then m.get? k
      else some ((l.filter (key · = k)).foldl f ((m.get? k).getD (base k))) := by
  have hfold : l.foldlM (fun m a => (.ok (step m a) : Except Unit (HashMap K V))) m =
      .ok (l.foldl step m) := by
    induction l generalizing m with
    | nil => rfl
    | cons a l ih =>
        rw [List.foldlM_cons, ok_bind, ih]
        rfl
  have hgroup := get?_foldlM_group base f (fun a => some (key a))
    (fun m a m' hm => ⟨key a, rfl, (Except.ok.inj hm).symm.trans (hstep m a)⟩) hfold k
  simpa only [Option.some.injEq] using hgroup

end HashMap

end RustStd
