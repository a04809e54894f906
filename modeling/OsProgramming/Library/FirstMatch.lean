import Mathlib.Data.List.Basic

/-! The loop that changes the first element of an array that it finds to match, and
stops there. -/

namespace OsProgramming.Library

variable {α : Type*}

def modifyFirst (p : α → Bool) (f : α → α) : List α → List α
  | [] => []
  | x :: xs => if p x then f x :: xs else x :: modifyFirst p f xs

theorem modifyFirst_of_forall {p : α → Bool} {f : α → α} {xs : List α}
    (h : ∀ x ∈ xs, p x = false) : modifyFirst p f xs = xs := by
  induction xs with
  | nil => rfl
  | cons x xs ih =>
    rw [modifyFirst, h x List.mem_cons_self, ih fun y hy => h y (List.mem_cons_of_mem x hy)]
    rfl

/-- The element that is changed, between those before it, which do not match, and
those behind it. -/
theorem modifyFirst_of_exists {p : α → Bool} (f : α → α) {xs : List α} (h : ∃ x ∈ xs, p x = true) :
    ∃ before x behind, xs = before ++ x :: behind ∧ p x = true ∧
      modifyFirst p f xs = before ++ f x :: behind := by
  induction xs with
  | nil => simp at h
  | cons x xs ih =>
    by_cases hx : p x = true
    · exact ⟨[], x, xs, rfl, hx, by rw [modifyFirst, if_pos hx]; rfl⟩
    · obtain ⟨y, hy, hpy⟩ := h
      rcases List.mem_cons.mp hy with rfl | hy
      · exact absurd hpy hx
      · obtain ⟨before, z, behind, rfl, hz, hmod⟩ := ih ⟨y, hy, hpy⟩
        exact ⟨x :: before, z, behind, rfl, hz, by rw [modifyFirst, if_neg hx, hmod]; rfl⟩

/-- The same by position: nothing matches and nothing changes, or one cell is set. -/
theorem modifyFirst_eq_set (p : α → Bool) (f : α → α) (xs : List α) :
    (modifyFirst p f xs = xs ∧ ∀ x ∈ xs, p x = false) ∨
      ∃ i x, xs[i]? = some x ∧ p x = true ∧ modifyFirst p f xs = xs.set i (f x) := by
  by_cases h : ∃ x ∈ xs, p x = true
  · obtain ⟨before, x, behind, rfl, hx, hmod⟩ := modifyFirst_of_exists f h
    exact .inr ⟨before.length, x, by simp, hx, by rw [hmod]; simp⟩
  · push Not at h
    have hno : ∀ x ∈ xs, p x = false := fun x hx => Bool.eq_false_iff.mpr (h x hx)
    exact .inl ⟨modifyFirst_of_forall hno, hno⟩

theorem getElem?_modifyFirst_cases {p : α → Bool} {f : α → α} {xs : List α} {i : ℕ} {y : α}
    (h : (modifyFirst p f xs)[i]? = some y) :
    ∃ x, xs[i]? = some x ∧ (y = x ∨ p x = true ∧ y = f x) := by
  rcases modifyFirst_eq_set p f xs with ⟨hsame, -⟩ | ⟨k, x, hk, hx, hset⟩
  · exact ⟨y, hsame ▸ h, .inl rfl⟩
  · rw [hset, List.getElem?_set] at h
    split_ifs at h with heq hlt
    · exact ⟨x, heq ▸ hk, .inr ⟨hx, (Option.some.inj h).symm⟩⟩
    · exact ⟨y, h, .inl rfl⟩

@[simp] theorem length_modifyFirst (p : α → Bool) (f : α → α) (xs : List α) :
    (modifyFirst p f xs).length = xs.length := by
  induction xs with
  | nil => rfl
  | cons x xs ih =>
    rw [modifyFirst]
    split_ifs
    · rfl
    · rw [List.length_cons, ih, List.length_cons]

end OsProgramming.Library
