import OsProgramming.Library.Runs
import Mathlib.Algebra.BigOperators.Group.Finset.Basic
import Mathlib.Data.List.Count

/-! Progress of systems of threads. A rank that every working step lowers, and every idle
one raises by a bounded amount, bounds the working steps of a path by its idle ones; and
what never moves on without being finished is finished after that many steps. -/

namespace OsProgramming.Library

variable {S A : Type*} {step : S → A → Option S} {inv finished : S → Prop} {idle : A → Prop}
  {rank : S → ℕ} {k : ℕ} {s s' : S} {actions : List A}

theorem foldlM_invariant (hinv : ∀ s a s', inv s → step s a = some s' → inv s') (hs : inv s)
    (hpath : actions.foldlM step s = some s') : inv s' :=
  (Reaches.of_foldlM hpath).invariant inv hs hinv

/-- The working steps of a path, and the rank that is left. -/
theorem rank_path [DecidablePred idle] (hinv : ∀ s a s', inv s → step s a = some s' → inv s')
    (hworks : ∀ s a s', inv s → step s a = some s' → ¬ idle a → rank s' < rank s)
    (hidle : ∀ s a s', inv s → step s a = some s' → idle a → rank s' ≤ rank s + k)
    (hs : inv s) (hpath : actions.foldlM step s = some s') :
    actions.countP (¬ idle ·) + rank s' ≤ rank s + k * actions.countP (idle ·) := by
  induction actions generalizing s with
  | nil => cases hpath; simp
  | cons a actions ih =>
    rw [List.foldlM_cons, Option.bind_eq_bind, Option.bind_eq_some_iff] at hpath
    obtain ⟨s₁, hstep, hrest⟩ := hpath
    have hrank := ih (hinv s a s₁ hs hstep) hrest
    simp only [List.countP_cons]
    by_cases ha : idle a
    · have := hidle s a s₁ hs hstep ha
      simp only [ha, not_true, decide_true, decide_false, Bool.false_eq_true, if_false, if_true,
        Nat.mul_add, Nat.mul_one]
      omega
    · have := hworks s a s₁ hs hstep ha
      simp only [ha, not_false_iff, decide_true, decide_false, Bool.false_eq_true, if_false, if_true,
        Nat.add_zero]
      omega

/-- The same where the steps count only until something has happened. -/
theorem rank_path_until [DecidablePred idle] (hinv : ∀ s a s', inv s → step s a = some s' → inv s')
    (hfinished : ∀ s a s', inv s → finished s → step s a = some s' → finished s')
    (hworks : ∀ s a s', inv s → step s a = some s' → ¬ idle a → finished s' ∨ rank s' < rank s)
    (hidle : ∀ s a s', inv s → step s a = some s' → idle a → rank s' ≤ rank s + k)
    (hs : inv s) (hpath : actions.foldlM step s = some s') :
    finished s' ∨
      actions.countP (¬ idle ·) + rank s' ≤ rank s + k * actions.countP (idle ·) := by
  induction actions generalizing s with
  | nil => cases hpath; simp
  | cons a actions ih =>
    rw [List.foldlM_cons, Option.bind_eq_bind, Option.bind_eq_some_iff] at hpath
    obtain ⟨s₁, hstep, hrest⟩ := hpath
    have hs₁ := hinv s a s₁ hs hstep
    refine or_iff_not_imp_left.mpr fun hnot => ?_
    have hrank := (ih hs₁ hrest).resolve_left hnot
    -- what has happened in the first step would still have happened at the end
    have hnot₁ : ¬ finished s₁ := fun hdone => hnot
      ((Reaches.of_foldlM hrest).invariant (fun s => inv s ∧ finished s) ⟨hs₁, hdone⟩
        fun s a s' h hstep => ⟨hinv s a s' h.1 hstep, hfinished s a s' h.1 h.2 hstep⟩).2
    simp only [List.countP_cons]
    by_cases ha : idle a
    · have := hidle s a s₁ hs hstep ha
      simp only [ha, not_true, decide_true, decide_false, Bool.false_eq_true, if_false, if_true,
        Nat.mul_add, Nat.mul_one]
      omega
    · have := (hworks s a s₁ hs hstep ha).resolve_left hnot₁
      simp only [ha, not_false_iff, decide_true, decide_false, Bool.false_eq_true, if_false, if_true,
        Nat.add_zero]
      omega

/-- One thread moves on. -/
theorem sum_update {T X : Type*} [DecidableEq T] {ts : Finset T} (weight : X → ℕ) (threads : T → X)
    {t : T} (ht : t ∈ ts) (x : X) :
    ∑ i ∈ ts, weight (Function.update threads t x i) + weight (threads t) =
      ∑ i ∈ ts, weight (threads i) + weight x := by
  have hothers : ∑ i ∈ ts.erase t, weight (Function.update threads t x i) =
      ∑ i ∈ ts.erase t, weight (threads i) :=
    Finset.sum_congr rfl fun i hi => by rw [Function.update_of_ne (Finset.ne_of_mem_erase hi)]
  rw [← Finset.add_sum_erase ts _ ht, ← Finset.add_sum_erase ts (fun i => weight (threads i)) ht,
    hothers, Function.update_self]
  omega

/-- A system that works on until it is finished is finished after some working steps. -/
theorem exists_finished (hinv : ∀ s a s', inv s → step s a = some s' → inv s')
    (hworks : ∀ s a s', inv s → step s a = some s' → ¬ idle a → rank s' < rank s)
    (hmoves : ∀ s, inv s → ¬ finished s → ∃ a s', ¬ idle a ∧ step s a = some s') (hs : inv s) :
    ∃ (actions : List A) (s' : S), (∀ a ∈ actions, ¬ idle a) ∧
      actions.foldlM step s = some s' ∧ finished s' := by
  induction hrank : rank s using Nat.strong_induction_on generalizing s with
  | _ n ih =>
    by_cases hfinished : finished s
    · exact ⟨[], s, nofun, rfl, hfinished⟩
    · obtain ⟨a, s₁, ha, hstep⟩ := hmoves s hs hfinished
      have hlt : rank s₁ < n := hrank ▸ hworks s a s₁ hs hstep ha
      obtain ⟨actions, s', hall, hpath, hdone⟩ := ih _ hlt (hinv s a s₁ hs hstep) rfl
      refine ⟨a :: actions, s', List.forall_mem_cons.mpr ⟨ha, hall⟩, ?_, hdone⟩
      rw [List.foldlM_cons, hstep]
      exact hpath

end OsProgramming.Library
