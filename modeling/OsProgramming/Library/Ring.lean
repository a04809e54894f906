import OsProgramming.Library.Memory

/-! A ring of cells with two indices and no count. The cells from `front` up to `rear`
are in use, so a ring whose indices are equal is empty, and never full. -/

namespace OsProgramming.Library

variable {α : Type*} {cells : List α} {front rear : ℕ}

def ringNext (length i : ℕ) : ℕ := if i + 1 = length then 0 else i + 1

def ringContents (cells : List α) (front rear : ℕ) : List α :=
  if front ≤ rear then (cells.take rear).drop front else cells.drop front ++ cells.take rear

theorem ringNext_lt {length i : ℕ} (h : i < length) : ringNext length i < length := by
  unfold ringNext
  split_ifs <;> omega

@[simp] theorem ringContents_self (cells : List α) (i : ℕ) : ringContents cells i i = [] := by
  simp [ringContents]

theorem length_ringContents (hrear : rear < cells.length) :
    (ringContents cells front rear).length =
      if front ≤ rear then rear - front else cells.length - front + rear := by
  unfold ringContents
  split_ifs <;> simp only [List.length_append, List.length_drop, List.length_take] <;> omega

theorem ringContents_lt (hfront : front < cells.length) (hrear : rear < cells.length) :
    (ringContents cells front rear).length < cells.length := by
  rw [length_ringContents hrear]
  split_ifs <;> omega

/-- With more than one cell left, a push appends. -/
theorem ringContents_push (hfront : front < cells.length) (hrear : rear < cells.length)
    (hroom : (ringContents cells front rear).length + 1 < cells.length) (x : α) :
    ringContents (cells.set rear x) front (ringNext cells.length rear) =
      ringContents cells front rear ++ [x] := by
  rw [length_ringContents hrear] at hroom
  have htake := take_succ_set hrear x
  unfold ringNext ringContents
  by_cases hle : front ≤ rear
  · have happend : ((cells.set rear x).take (rear + 1)).drop front =
        (cells.take rear).drop front ++ [x] := by
      rw [htake, List.drop_append_of_le_length (by rw [List.length_take]; omega)]
    rw [if_pos hle] at hroom ⊢
    by_cases hlast : rear + 1 = cells.length
    · rw [if_pos hlast, if_neg (by omega), List.take_zero, List.append_nil, ← happend,
        List.take_of_length_le (by rw [List.length_set]; omega)]
    · rw [if_neg hlast, if_pos (by omega), happend]
  · rw [if_neg hle] at hroom ⊢
    have hlast : rear + 1 ≠ cells.length := by omega
    rw [if_neg hlast, if_neg (by omega), htake, List.drop_set_of_lt (by omega),
      List.append_assoc]

/-- With one cell left, a push brings the indices together. -/
theorem ringNext_of_full (hfront : front < cells.length) (hrear : rear < cells.length)
    (hfull : (ringContents cells front rear).length + 1 = cells.length) :
    ringNext cells.length rear = front := by
  rw [length_ringContents hrear] at hfull
  unfold ringNext
  split_ifs at hfull ⊢ <;> omega

/-- Of a ring that is not empty, a pop takes the first cell. -/
theorem ringContents_pop (hfront : front < cells.length) (hrear : rear < cells.length)
    (hne : front ≠ rear) :
    ringContents cells front rear =
      cells[front] :: ringContents cells (ringNext cells.length front) rear := by
  unfold ringNext ringContents
  by_cases hle : front ≤ rear
  · have hlast : front + 1 ≠ cells.length := by omega
    rw [if_pos hle, if_neg hlast, if_pos (by omega),
      List.drop_eq_getElem_cons (by rw [List.length_take]; omega), List.getElem_take]
  · rw [if_neg hle, List.drop_eq_getElem_cons hfront, List.cons_append]
    by_cases hlast : front + 1 = cells.length
    · rw [if_pos hlast, if_pos (Nat.zero_le _), hlast, List.drop_length, List.nil_append,
        List.drop_zero]
    · rw [if_neg hlast, if_neg (by omega)]

end OsProgramming.Library
