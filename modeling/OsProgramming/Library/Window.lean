import OsProgramming.Library.Memory

/-! A block with a live window: the cells between a reading and a writing
position are a queue, the others are arbitrary. The positions are ordered by
construction, so the four ways of moving them are total. -/

namespace OsProgramming.Library

structure Window (α : Type*) where
  cells : List α
  lo : ℕ
  hi : ℕ
  lo_le_hi : lo ≤ hi
  hi_le_length : hi ≤ cells.length

namespace Window

variable {α : Type*}

/-- The queue that the window holds, the front first. -/
def contents (w : Window α) : List α := (w.cells.take w.hi).drop w.lo

@[simp] theorem length_contents (w : Window α) : w.contents.length = w.hi - w.lo := by
  have := w.hi_le_length
  simp [contents]; omega

theorem contents_eq_take_drop (w : Window α) :
    w.contents = (w.cells.drop w.lo).take (w.hi - w.lo) := by
  rw [contents, List.drop_take]

/-- An empty window at the beginning of a block. -/
def empty (cells : List α) : Window α := ⟨cells, 0, 0, le_rfl, Nat.zero_le _⟩

/-- Write at the back. -/
def push (w : Window α) (xs : List α) (h : w.hi + xs.length ≤ w.cells.length) : Window α where
  cells := w.cells.take w.hi ++ xs ++ w.cells.drop (w.hi + xs.length)
  lo := w.lo
  hi := w.hi + xs.length
  lo_le_hi := by have := w.lo_le_hi; omega
  hi_le_length := by simp; omega

@[simp] theorem length_push (w : Window α) (xs : List α) (h) :
    (w.push xs h).cells.length = w.cells.length := by
  simp [push]; omega

@[simp] theorem contents_push (w : Window α) (xs : List α) (h) :
    (w.push xs h).contents = w.contents ++ xs := by
  have hlo := w.lo_le_hi
  have hlen : (w.cells.take w.hi ++ xs).length = w.hi + xs.length := by simp; omega
  have htake : (w.push xs h).cells.take (w.hi + xs.length) = w.cells.take w.hi ++ xs := by
    simp only [push]
    rw [← hlen, List.take_left]
  simp only [contents, push] at htake ⊢
  rw [htake, List.drop_append_of_le_length (by simp; omega)]

/-- The cells that a push leaves as they were. -/
theorem mem_push (w : Window α) {xs : List α} (h : w.hi + xs.length ≤ w.cells.length) (x : α) :
    x ∈ (w.push xs h).cells ↔
      x ∈ xs ∨ x ∈ w.cells.take w.hi ∨ x ∈ w.cells.drop (w.hi + xs.length) := by
  simp only [push, List.mem_append]
  tauto

/-- A push that fills the block. -/
theorem cells_push (w : Window α) {xs : List α} (h : w.hi + xs.length = w.cells.length) :
    (w.push xs h.le).cells = w.cells.take w.hi ++ xs := by
  simp [push, List.drop_of_length_le h.ge]

/-- Move the live cells to the beginning of the block. -/
def compact (w : Window α) : Window α where
  cells := w.contents ++ w.cells.drop (w.hi - w.lo)
  lo := 0
  hi := w.hi - w.lo
  lo_le_hi := Nat.zero_le _
  hi_le_length := by simp

@[simp] theorem length_compact (w : Window α) : w.compact.cells.length = w.cells.length := by
  have := w.hi_le_length
  simp [compact]; omega

theorem take_compact (w : Window α) : w.compact.cells.take w.compact.hi = w.contents := by
  show (w.contents ++ w.cells.drop (w.hi - w.lo)).take (w.hi - w.lo) = w.contents
  rw [← length_contents, List.take_left]

@[simp] theorem contents_compact (w : Window α) : w.compact.contents = w.contents := by
  rw [contents, take_compact]
  exact List.drop_zero

/-- Behind the live cells a compacted block is as it was. -/
theorem drop_compact (w : Window α) (k : ℕ) :
    w.compact.cells.drop (w.compact.hi + k) = w.cells.drop (w.hi - w.lo + k) := by
  show (w.contents ++ w.cells.drop (w.hi - w.lo)).drop (w.hi - w.lo + k) = _
  rw [← List.drop_drop, ← length_contents, List.drop_left, List.drop_drop]

/-- Extend the block at its end. -/
def grow (w : Window α) (more : List α) : Window α where
  cells := w.cells ++ more
  lo := w.lo
  hi := w.hi
  lo_le_hi := w.lo_le_hi
  hi_le_length := by have := w.hi_le_length; simp; omega

@[simp] theorem contents_grow (w : Window α) (more : List α) :
    (w.grow more).contents = w.contents := by
  simp only [contents, grow, List.take_append_of_le_length w.hi_le_length]

/-- Drop `k` elements at the front. -/
def skip (w : Window α) (k : ℕ) (h : k ≤ w.hi - w.lo) : Window α where
  cells := w.cells
  lo := w.lo + k
  hi := w.hi
  lo_le_hi := by have := w.lo_le_hi; omega
  hi_le_length := w.hi_le_length

@[simp] theorem contents_skip (w : Window α) (k : ℕ) (h) :
    (w.skip k h).contents = w.contents.drop k := by
  simp [contents, skip, List.drop_drop, Nat.add_comm]

/-- The front element is the cell at the reading position. -/
theorem contents_eq_cons (w : Window α) (h : w.lo < w.hi) (hlt : w.lo < w.cells.length) :
    w.contents = w.cells[w.lo] :: w.contents.drop 1 := by
  have htake : w.lo < (w.cells.take w.hi).length := by simp; omega
  rw [contents, List.drop_drop, List.drop_eq_getElem_cons htake]
  simp

end Window

end OsProgramming.Library
