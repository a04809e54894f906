import Mathlib.Logic.Function.Iterate
import Mathlib.Order.Bounds.Basic
import Mathlib.Order.Monotone.Basic

/-! Growth of a table. A `while` loop ends at the first iterate of its body at which
its test fails. A loop that climbs through a strictly increasing sequence of sizes
ends at the least size above its bound, and a table that grows only when it must is
always of the least size above all bounds it was asked for. -/

namespace OsProgramming.Library

section Loops

variable {S : Type*} {test : S → Prop} {body : S → S} {s : S} {n : ℕ}

/-- `while (test) body` ends after `n` rounds. -/
structure LoopExit (test : S → Prop) (body : S → S) (s : S) (n : ℕ) : Prop where
  runs : ∀ m < n, test (body^[m] s)
  ends : ¬ test (body^[n] s)

theorem loopExit_zero : LoopExit test body s 0 ↔ ¬ test s :=
  ⟨fun h => h.ends, fun h => ⟨nofun, h⟩⟩

theorem loopExit_succ :
    LoopExit test body s (n + 1) ↔ test s ∧ LoopExit test body (body s) n := by
  constructor
  · intro h
    exact ⟨h.runs 0 (Nat.succ_pos n), fun m hm => h.runs (m + 1) (Nat.succ_lt_succ hm), h.ends⟩
  · rintro ⟨htest, h⟩
    refine ⟨fun m hm => ?_, h.ends⟩
    cases m with
    | zero => exact htest
    | succ m => exact h.runs m (Nat.lt_of_succ_lt_succ hm)

end Loops

section Sizes

variable {R : Type*} [LinearOrder R] {size : ℕ → R} {bounds : List R} {bound x y : R}

/-- A loop that climbs through the sizes from the `j`-th on, where it starts at the
first size or at one that is too small, ends at the least size above the bound. -/
theorem LoopExit.isLeast {body : R → R} {j n : ℕ} (hsize : StrictMono size)
    (h : LoopExit (· ≤ bound) body (size j) n)
    (hbody : ∀ m ≤ n, body^[m] (size j) = size (j + m)) (hstart : j = 0 ∨ size j ≤ bound) :
    IsLeast {x ∈ Set.range size | bound < x} (size (j + n)) := by
  refine ⟨⟨⟨j + n, rfl⟩, hbody n le_rfl ▸ not_le.mp h.ends⟩, ?_⟩
  rintro _ ⟨⟨i, rfl⟩, hbound⟩
  refine hsize.monotone ?_
  by_contra hlt
  refine absurd hbound (not_lt.mpr ?_)
  rcases le_total i j with hij | hji
  · rcases hstart with rfl | hj
    · -- the first size is one that the loop has left
      obtain rfl : i = 0 := Nat.le_zero.mp hij
      exact h.runs 0 (by omega)
    · exact (hsize.monotone hij).trans hj
  · obtain ⟨m, rfl⟩ := Nat.exists_eq_add_of_le hji
    have hm : m < n := by omega
    exact hbody m hm.le ▸ h.runs m hm

variable {sizes : Set R}

/-- A bound below the size that the table has changes nothing. -/
theorem isLeast_above_cons (h : IsLeast {a ∈ sizes | ∀ b ∈ bounds, b < a} x) (hlt : bound < x) :
    IsLeast {a ∈ sizes | ∀ b ∈ bound :: bounds, b < a} x := by
  obtain ⟨⟨hx, habove⟩, hleast⟩ := h
  refine ⟨⟨hx, List.forall_mem_cons.mpr ⟨hlt, habove⟩⟩, ?_⟩
  rintro a ⟨ha, hbounds⟩
  exact hleast ⟨ha, (List.forall_mem_cons.mp hbounds).2⟩

/-- For any other bound, the least size above it is above the bounds before it too. -/
theorem isLeast_above_cons_of_le (h : ∀ b ∈ bounds, b ≤ bound)
    (hy : IsLeast {a ∈ sizes | bound < a} y) :
    IsLeast {a ∈ sizes | ∀ b ∈ bound :: bounds, b < a} y := by
  obtain ⟨⟨hsize, hlt⟩, hleast⟩ := hy
  refine ⟨⟨hsize, List.forall_mem_cons.mpr ⟨hlt, fun b hb => (h b hb).trans_lt hlt⟩⟩, ?_⟩
  rintro a ⟨ha, hbounds⟩
  exact hleast ⟨ha, (List.forall_mem_cons.mp hbounds).1⟩

end Sizes

end OsProgramming.Library
