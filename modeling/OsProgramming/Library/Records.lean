import Mathlib.Data.List.Basic
import Mathlib.Data.List.Count
import Mathlib.Data.List.Flatten
import Mathlib.Tactic.Common

/-! Records of a stream. A record ends with a terminator that is nowhere else in it, so the
records of a stream can be cut out of it and put together again; records that are themselves
cut behind some symbols can be told apart exactly if none of them was too long. -/

namespace OsProgramming.Library

variable {α : Type*} [DecidableEq α] {t : α} {record : List α}

/-- The records of a stream of which `record` has been read. What is left at the end is not
one. -/
def records (t : α) (record : List α) : List α → List (List α)
  | [] => []
  | x :: xs =>
    if x = t then (record ++ [t]) :: records t [] xs else records t (record ++ [x]) xs

/-- What is left at the end. -/
def remainder (t : α) (record : List α) : List α → List α
  | [] => record
  | x :: xs => if x = t then remainder t [] xs else remainder t (record ++ [x]) xs

theorem records_of_append (t : α) (record xs ys : List α) :
    records t record (xs ++ ys) = records t record xs ++ records t (remainder t record xs) ys := by
  induction xs generalizing record with
  | nil => rfl
  | cons x xs ih =>
    rw [List.cons_append, records, records, remainder]
    split_ifs with hx
    · rw [ih, List.cons_append]
    · exact ih _

theorem remainder_append (t : α) (record xs ys : List α) :
    remainder t record (xs ++ ys) = remainder t (remainder t record xs) ys := by
  induction xs generalizing record with
  | nil => rfl
  | cons x xs ih =>
    rw [List.cons_append, remainder, remainder]
    split_ifs with hx <;> exact ih _

/-- The terminator is the last symbol and no other. -/
def Terminated (t : α) (record : List α) : Prop := ∃ body, t ∉ body ∧ record = body ++ [t]

theorem flatten_records (t : α) (record xs : List α) :
    (records t record xs).flatten ++ remainder t record xs = record ++ xs := by
  induction xs generalizing record with
  | nil => simp [records, remainder]
  | cons x xs ih =>
    rw [records, remainder]
    split_ifs with hx
    · rw [List.flatten_cons, List.append_assoc, ih, hx]
      simp
    · rw [ih, List.append_assoc, List.singleton_append]

theorem terminated_of_mem (hrecord : t ∉ record) {xs r : List α} (hr : r ∈ records t record xs) :
    Terminated t r := by
  induction xs generalizing record with
  | nil => cases hr
  | cons x xs ih =>
    rw [records] at hr
    split_ifs at hr with hx
    · rcases List.mem_cons.mp hr with rfl | hr
      · exact ⟨record, hrecord, rfl⟩
      · exact ih List.not_mem_nil hr
    · exact ih (by simp [hrecord, Ne.symm hx]) hr

/-- Symbols that end no record. -/
theorem records_append {plain : List α} (hplain : t ∉ plain) (xs : List α) :
    records t record (plain ++ xs) = records t (record ++ plain) xs := by
  induction plain generalizing record with
  | nil => simp
  | cons x plain ih =>
    rw [List.mem_cons, not_or] at hplain
    rw [List.cons_append, records, if_neg (Ne.symm hplain.1), ih hplain.2, List.append_assoc,
      List.singleton_append]

/-- Records that follow each other are the records of the stream. -/
theorem records_flatten {rs : List (List α)} (hrs : ∀ r ∈ rs, Terminated t r) (xs : List α) :
    records t [] (rs.flatten ++ xs) = rs ++ records t [] xs := by
  induction rs with
  | nil => rfl
  | cons r rs ih =>
    obtain ⟨⟨body, hbody, rfl⟩, hrest⟩ := List.forall_mem_cons.mp hrs
    rw [List.flatten_cons, List.append_assoc, List.append_assoc, records_append hbody,
      List.singleton_append, records, if_pos rfl, ih hrest]
    rfl

theorem length_records (t : α) (record xs : List α) : (records t record xs).length = xs.count t := by
  induction xs generalizing record with
  | nil => rfl
  | cons x xs ih =>
    rw [records, List.count_cons]
    split_ifs with hx <;> simp_all

theorem Terminated.count_eq {r : List α} (h : Terminated t r) : r.count t = 1 := by
  obtain ⟨body, hbody, rfl⟩ := h
  rw [List.count_append, List.count_eq_zero.mpr hbody, List.count_singleton_self]

/-- A record that is too long loses its terminator. -/
theorem Terminated.count_take {r : List α} (h : Terminated t r) {n : ℕ} (hn : n < r.length) :
    (r.take n).count t = 0 := by
  obtain ⟨body, hbody, rfl⟩ := h
  rw [List.length_append, List.length_singleton] at hn
  rw [List.take_append_of_le_length (by omega), List.count_eq_zero]
  exact fun hmem => hbody (List.mem_of_mem_take hmem)

/-- Each record has its terminator, unless it was cut. -/
theorem count_take_le (t : α) {rs : List (List α)} (hrs : ∀ r ∈ rs, Terminated t r) (n : ℕ) :
    (rs.map (·.take n)).flatten.count t ≤ rs.length ∧
      ((rs.map (·.take n)).flatten.count t = rs.length ↔ ∀ r ∈ rs, r.length ≤ n) := by
  induction rs with
  | nil => simp
  | cons r rs ih =>
    obtain ⟨hr, hrest⟩ := List.forall_mem_cons.mp hrs
    obtain ⟨hle, hiff⟩ := ih hrest
    rw [List.map_cons, List.flatten_cons, List.count_append, List.length_cons,
      List.forall_mem_cons, ← hiff]
    rcases Nat.lt_or_ge n r.length with hlong | hfit
    · rw [hr.count_take hlong]
      omega
    · rw [List.take_of_length_le hfit, hr.count_eq]
      omega

omit [DecidableEq α] in
theorem length_flatten_map_take_le (rs : List (List α)) (n : ℕ) :
    (rs.map (·.take n)).flatten.length ≤ rs.flatten.length := by
  induction rs with
  | nil => exact Nat.le_refl _
  | cons r rs ih =>
    simp only [List.map_cons, List.flatten_cons, List.length_append, List.length_take]
    omega

omit [DecidableEq α] in
/-- Nothing is lost of records that are cut behind `n` symbols exactly if none is longer. -/
theorem flatten_map_take_iff {rs : List (List α)} {n : ℕ} :
    (rs.map (·.take n)).flatten = rs.flatten ↔ ∀ r ∈ rs, r.length ≤ n := by
  constructor
  · intro heq
    induction rs with
    | nil => simp
    | cons r rs ih =>
      rw [List.map_cons, List.flatten_cons, List.flatten_cons] at heq
      have hfit : r.length ≤ n := by
        have hlen := congrArg List.length heq
        have hle := length_flatten_map_take_le rs n
        simp only [List.length_append, List.length_take] at hlen
        omega
      rw [List.take_of_length_le hfit, List.append_cancel_left_eq] at heq
      exact List.forall_mem_cons.mpr ⟨hfit, ih heq⟩
  · intro hfit
    exact congrArg List.flatten ((List.map_congr_left fun r hr => List.take_of_length_le (hfit r hr)).trans
      (List.map_id rs))

/-- Records that were cut behind `n` symbols are found again exactly if none was longer. -/
theorem records_take_iff {rs : List (List α)} (hrs : ∀ r ∈ rs, Terminated t r) {n : ℕ} :
    records t [] (rs.map (·.take n)).flatten = rs ↔ ∀ r ∈ rs, r.length ≤ n := by
  constructor
  · intro heq
    rw [← (count_take_le t hrs n).2, ← length_records t [], heq]
  · intro hfit
    have hsame : rs.map (·.take n) = rs := by
      conv_rhs => rw [← List.map_id rs]
      exact List.map_congr_left fun r hr => List.take_of_length_le (hfit r hr)
    rw [hsame, ← List.append_nil rs.flatten, records_flatten hrs, records, List.append_nil]

/-- A code that gives the terminator to itself only keeps the records. -/
theorem records_map {β : Type*} [DecidableEq β] {f : α → β} {u : β} (hf : ∀ x, f x = u ↔ x = t)
    (record xs : List α) :
    records u (record.map f) (xs.map f) = (records t record xs).map (·.map f) := by
  induction xs generalizing record with
  | nil => rfl
  | cons x xs ih =>
    rw [List.map_cons, records, records]
    by_cases hx : x = t
    · rw [if_pos hx, if_pos ((hf x).mpr hx), List.map_cons, ← ih []]
      simp [(hf t).mpr rfl]
    · rw [if_neg hx, if_neg (fun h => hx ((hf x).mp h)), ← ih]
      simp

end OsProgramming.Library
