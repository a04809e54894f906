import Mathlib.Data.List.Basic
import Mathlib.Data.List.Count
import Mathlib.Data.List.TakeWhile
import Mathlib.Tactic.Common

/-! Lines of a stream. One reader ends a line at LF, CR or CRLF, and writes LF for each;
another ends it at LF only, gets the stream in chunks, and drops what is behind the
first LF of a chunk. They agree exactly on the chunks that end with their lines. -/

namespace OsProgramming.Library

variable {α : Type*} [DecidableEq α] {cr lf : α}

/-- The lines of a stream of which `line` has been read, the last symbol being CR or
not. What is left at the end is a line too. -/
def lines (cr lf : α) (afterCr : Bool) (line : List α) : List α → List (List α)
  | [] => if line = [] then [] else [line]
  | x :: xs =>
    if x = lf ∧ afterCr then lines cr lf false line xs
    else if x = lf ∨ x = cr then (line ++ [lf]) :: lines cr lf (x = cr) [] xs
    else lines cr lf false (line ++ [x]) xs

/-- The first line, and the stream behind it. -/
def firstLine (cr lf : α) : List α → List α × List α
  | [] => ([], [])
  | x :: xs =>
    if x = lf then ([lf], xs)
    else if x = cr then ([lf], if xs.head? = some lf then xs.tail else xs)
    else (x :: (firstLine cr lf xs).1, (firstLine cr lf xs).2)

/-- The first line, cut behind `n` symbols, and the stream behind it. -/
def cutLine (cr lf : α) : ℕ → List α → List α × List α
  | 0, xs => ([], xs)
  | _ + 1, [] => ([], [])
  | n + 1, x :: xs =>
    if x = lf then ([lf], xs)
    else if x = cr then ([lf], if xs.head? = some lf then xs.tail else xs)
    else (x :: (cutLine cr lf n xs).1, (cutLine cr lf n xs).2)

/-- Every CRLF and every other CR replaced by one LF. -/
def normalize (cr lf : α) : List α → List α
  | [] => []
  | [x] => [if x = cr then lf else x]
  | x :: y :: xs =>
    if x = cr ∧ y = lf then lf :: normalize cr lf xs
    else (if x = cr then lf else x) :: normalize cr lf (y :: xs)

/-- The lines that are found in chunks, the rest of a chunk behind its first LF being
lost. What is left at the end is no line. -/
def chunkLines (lf : α) (line : List α) : List (List α) → List (List α)
  | [] => []
  | chunk :: chunks =>
    if lf ∈ chunk then
      (line ++ chunk.takeWhile (· ≠ lf) ++ [lf]) :: chunkLines lf [] chunks
    else chunkLines lf (line ++ chunk) chunks

/-- The chunks end with their lines. There is no CR before an LF in its chunk, and
behind it nothing, or a CR whose LF is the first symbol that follows; in the end, no
line is begun. -/
def Aligned (cr lf : α) (begun : Bool) : List (List α) → Prop
  | [] => begun = false
  | chunk :: chunks =>
    cr ∉ chunk.takeWhile (· ≠ lf) ∧
      match chunk.dropWhile (· ≠ lf) with
      | [] => Aligned cr lf true chunks
      | _ :: behind => (behind = [] ∨ behind = [cr] ∧ chunks.flatten.head? = some lf) ∧
        Aligned cr lf false chunks

/-- The number of CRs that have their LF. -/
def crlfs (cr lf : α) (afterCr : Bool) : List α → ℕ
  | [] => 0
  | x :: xs => (if x = lf ∧ afterCr then 1 else 0) + crlfs cr lf (x = cr) xs

/-! ### Lines of the stream -/

/-- Every symbol is in its line, except for the one that a CRLF loses. -/
theorem length_flatten_lines (hne : cr ≠ lf) (afterCr : Bool) (line xs : List α) :
    (lines cr lf afterCr line xs).flatten.length + crlfs cr lf afterCr xs =
      line.length + xs.length := by
  induction xs generalizing afterCr line with
  | nil =>
    rw [lines, crlfs]
    split_ifs with h
    · simp [h]
    · simp
  | cons x xs ih =>
    rw [lines, crlfs]
    split_ifs with hcrlf hend
    · have hx : decide (x = cr) = false := by rw [hcrlf.1]; exact decide_eq_false hne.symm
      have := ih false line
      rw [hx, List.length_cons]
      omega
    · have := ih (decide (x = cr)) []
      simp only [List.flatten_cons, List.length_append, List.length_cons, List.length_nil] at *
      omega
    · rw [not_or] at hend
      have := ih false (line ++ [x])
      rw [decide_eq_false hend.2]
      simp only [List.length_append, List.length_cons, List.length_nil] at *
      omega

/-- No CR is in a line. -/
theorem not_mem_lines (hne : cr ≠ lf) {afterCr : Bool} {line xs : List α} (hline : cr ∉ line) :
    cr ∉ (lines cr lf afterCr line xs).flatten := by
  induction xs generalizing afterCr line with
  | nil =>
    rw [lines]
    split_ifs <;> simp [hline]
  | cons x xs ih =>
    rw [lines]
    split_ifs with hcrlf hend
    · exact ih hline
    · simp [hline, hne, ih]
    · rw [not_or] at hend
      exact ih (by simp [hline, Ne.symm hend.2])

/-- There are at least as many lines as LFs. -/
theorem count_le_length_lines (hne : cr ≠ lf) (afterCr : Bool) (line xs : List α) :
    xs.count lf ≤ (lines cr lf afterCr line xs).length + if afterCr then 1 else 0 := by
  induction xs generalizing afterCr line with
  | nil => simp
  | cons x xs ih =>
    simp only [List.count_cons, beq_iff_eq]
    by_cases hlf : x = lf
    · have hx : decide (x = cr) = false := by rw [hlf]; exact decide_eq_false hne.symm
      cases afterCr with
      | true => simpa [lines, hlf] using ih false line
      | false => simpa [lines, hlf, hne.symm] using ih false []
    by_cases hcr : x = cr
    · have := ih true []
      simp only [↓reduceIte] at this
      simp only [lines, hcr, hne, false_and, ↓reduceIte, or_true, List.length_cons, decide_true,
        Nat.add_zero]
      omega
    · have := ih false (line ++ [x])
      simp only [lines, hlf, hcr, false_and, or_self, ↓reduceIte]
      simp only [Bool.false_eq_true, ↓reduceIte] at this
      omega

/-- A CRLF has a CR. -/
theorem crlfs_le (hne : cr ≠ lf) (afterCr : Bool) (xs : List α) :
    crlfs cr lf afterCr xs ≤ xs.count cr + if afterCr then 1 else 0 := by
  induction xs generalizing afterCr with
  | nil => simp [crlfs]
  | cons x xs ih =>
    rw [crlfs, List.count_cons]
    by_cases hx : x = cr
    · have := ih true
      simp [hx, hne]
      simp at this
      omega
    · have := ih false
      simp only [hx, decide_false, beq_iff_eq]
      split_ifs <;> simp_all <;> omega

/-- Symbols that end no line. -/
theorem lines_append {line plain : List α} (hcr : cr ∉ plain) (hlf : lf ∉ plain) (xs : List α) :
    lines cr lf false line (plain ++ xs) = lines cr lf false (line ++ plain) xs := by
  induction plain generalizing line with
  | nil => simp
  | cons x plain ih =>
    rw [List.mem_cons, not_or] at hcr hlf
    rw [List.cons_append, lines, if_neg (fun h => hlf.1 h.1.symm),
      if_neg (fun h => h.elim (fun h => hlf.1 h.symm) (fun h => hcr.1 h.symm)), ih hcr.2 hlf.2,
      List.append_assoc, List.singleton_append]

theorem lines_afterCr (xs : List α) :
    lines cr lf true [] xs = lines cr lf false [] (if xs.head? = some lf then xs.tail else xs) := by
  cases xs with
  | nil => rfl
  | cons x xs =>
    by_cases hx : x = lf
    · simp [lines, hx]
    · simp [lines, hx]

/-- A CR and its LF are one end. -/
theorem lines_crlf (hne : cr ≠ lf) (xs : List α) :
    lines cr lf false [] (cr :: lf :: xs) = lines cr lf false [] (lf :: xs) := by
  simp [lines, hne, hne.symm]

theorem lines_cons (hne : cr ≠ lf) (line : List α) (x : α) (xs : List α) :
    lines cr lf false line (x :: xs) =
      (line ++ (firstLine cr lf (x :: xs)).1) ::
        lines cr lf false [] (firstLine cr lf (x :: xs)).2 := by
  induction xs generalizing line x with
  | nil =>
    by_cases hlf : x = lf
    · simp [lines, firstLine, hlf]
    · by_cases hcr : x = cr
      · simp [lines, firstLine, hcr, hne]
      · simp [lines, firstLine, hlf, hcr]
  | cons y xs ih =>
    by_cases hlf : x = lf
    · simp [lines, firstLine, hlf, hne.symm]
    by_cases hcr : x = cr
    · rw [lines, firstLine, if_neg (by simp), if_pos (.inr hcr), if_neg hlf, if_pos hcr,
        decide_eq_true hcr, lines_afterCr]
    · rw [lines, firstLine, if_neg (by simp), if_neg (by simp [hlf, hcr]), if_neg hlf, if_neg hcr,
        ih (line ++ [x]) y, List.append_assoc, List.singleton_append]

theorem firstLine_lt (x : α) (xs : List α) :
    0 < (firstLine cr lf (x :: xs)).1.length ∧
      (firstLine cr lf (x :: xs)).2.length < (x :: xs).length := by
  induction xs generalizing x with
  | nil =>
    rw [firstLine]
    split_ifs <;> simp [firstLine] at *
  | cons y xs ih =>
    rw [firstLine]
    split_ifs
    · simp
    · simp only [List.tail_cons, List.length_cons]
      omega
    · simp
    · have := (ih y).2
      simp only [List.length_cons] at this ⊢
      omega

/-! ### Cut lines -/

theorem cutLine_of_end {x : α} (h : x = lf ∨ x = cr) (n : ℕ) (xs : List α) :
    cutLine cr lf (n + 1) (x :: xs) = firstLine cr lf (x :: xs) := by
  rw [cutLine, firstLine]
  split_ifs with hlf hcr
  · rfl
  · rfl
  · rfl
  · exact absurd h (not_or.mpr ⟨hlf, hcr⟩)

theorem cutLine_of_middle {x : α} (hlf : x ≠ lf) (hcr : x ≠ cr) (n : ℕ) (xs : List α) :
    cutLine cr lf (n + 1) (x :: xs) =
      (x :: (cutLine cr lf n xs).1, (cutLine cr lf n xs).2) := by
  rw [cutLine, if_neg hlf, if_neg hcr]

/-- A line that is short enough is not cut. -/
theorem cutLine_of_length_le {n : ℕ} {xs : List α} (h : (firstLine cr lf xs).1.length ≤ n) :
    cutLine cr lf n xs = firstLine cr lf xs := by
  induction n generalizing xs with
  | zero =>
    match xs with
    | [] => rfl
    | x :: xs => exact absurd (firstLine_lt x xs).1 (not_lt.mpr h)
  | succ n ih =>
    match xs with
    | [] => rfl
    | x :: xs =>
      rw [firstLine] at h ⊢
      rw [cutLine]
      split_ifs with hlf hcr
      · rfl
      · rfl
      · rfl
      · rw [if_neg hlf, if_neg hcr, List.length_cons] at h
        rw [ih (Nat.le_of_succ_le_succ h)]

theorem length_cutLine (n : ℕ) (xs : List α) :
    (cutLine cr lf n xs).1.length = min n (firstLine cr lf xs).1.length := by
  induction n generalizing xs with
  | zero => simp [cutLine]
  | succ n ih =>
    match xs with
    | [] => rfl
    | x :: xs =>
      rw [cutLine, firstLine]
      split_ifs
      · simp
      · simp
      · simp
      · rw [List.length_cons, List.length_cons, ih, Nat.add_min_add_right]

theorem length_cutLine_le (n : ℕ) (xs : List α) : (cutLine cr lf n xs).1.length ≤ n := by
  rw [length_cutLine]
  exact Nat.min_le_left n _

/-- An LF is the last symbol of its line. -/
theorem not_mem_dropLast_cutLine (n : ℕ) (xs : List α) :
    lf ∉ (cutLine cr lf n xs).1.dropLast := by
  induction n generalizing xs with
  | zero => exact List.not_mem_nil
  | succ n ih =>
    match xs with
    | [] => exact List.not_mem_nil
    | x :: xs =>
      by_cases hend : x = lf ∨ x = cr
      · rw [cutLine]
        split_ifs with hlf hcr
        · exact List.not_mem_nil
        · exact List.not_mem_nil
        · exact List.not_mem_nil
        · exact absurd hend (not_or.mpr ⟨hlf, hcr⟩)
      · rw [not_or] at hend
        rw [cutLine_of_middle hend.1 hend.2]
        cases hrest : (cutLine cr lf n xs).1 with
        | nil => exact List.not_mem_nil
        | cons y ys =>
          have hih := ih xs
          rw [hrest] at hih
          rw [List.dropLast_cons_cons, List.mem_cons, not_or]
          exact ⟨Ne.symm hend.1, hih⟩

theorem cutLine_lt (n : ℕ) (x : α) (xs : List α) :
    0 < (cutLine cr lf (n + 1) (x :: xs)).1.length ∧
      (cutLine cr lf (n + 1) (x :: xs)).2.length < (x :: xs).length := by
  induction n generalizing x xs with
  | zero =>
    by_cases hend : x = lf ∨ x = cr
    · rw [cutLine_of_end hend]
      exact firstLine_lt x xs
    · rw [not_or] at hend
      rw [cutLine_of_middle hend.1 hend.2]
      simp [cutLine]
  | succ n ih =>
    by_cases hend : x = lf ∨ x = cr
    · rw [cutLine_of_end hend]
      exact firstLine_lt x xs
    · rw [not_or] at hend
      rw [cutLine_of_middle hend.1 hend.2]
      match xs with
      | [] => simp [cutLine]
      | y :: ys =>
        have := (ih y ys).2
        exact ⟨Nat.succ_pos _, Nat.lt_succ_of_lt this⟩

theorem normalize_cons (x : α) (xs : List α) :
    normalize cr lf (x :: xs) =
      if x = cr then lf :: normalize cr lf (if xs.head? = some lf then xs.tail else xs)
      else x :: normalize cr lf xs := by
  match xs with
  | [] =>
    by_cases hx : x = cr <;> simp [normalize, hx]
  | y :: ys =>
    by_cases hx : x = cr
    · by_cases hy : y = lf <;> simp [normalize, hx, hy]
    · simp [normalize, hx]

/-- Cut anywhere, the lines together are the normalised stream. -/
theorem normalize_eq_cutLine (hne : cr ≠ lf) (n : ℕ) (xs : List α) :
    normalize cr lf xs =
      (cutLine cr lf n xs).1 ++ normalize cr lf (cutLine cr lf n xs).2 := by
  induction n generalizing xs with
  | zero => rfl
  | succ n ih =>
    match xs with
    | [] => rfl
    | x :: xs =>
      rw [normalize_cons, cutLine]
      by_cases hlf : x = lf
      · rw [if_pos hlf, if_neg (by rw [hlf]; exact hne.symm), hlf, List.singleton_append]
      by_cases hcr : x = cr
      · rw [if_neg hlf, if_pos hcr, if_pos hcr, List.singleton_append]
      · rw [if_neg hlf, if_neg hcr, if_neg hcr, ih xs, List.cons_append]

/-! ### Lines of the chunks -/

/-- A chunk up to its first LF, and behind it. -/
theorem exists_dropWhile {chunk : List α} (h : lf ∈ chunk) :
    ∃ behind, chunk.dropWhile (· ≠ lf) = lf :: behind ∧
      chunk = chunk.takeWhile (· ≠ lf) ++ lf :: behind := by
  induction chunk with
  | nil => cases h
  | cons x chunk ih =>
    by_cases hx : x = lf
    · exact ⟨chunk, by simp [hx], by simp [hx]⟩
    · obtain ⟨behind, hdrop, hchunk⟩ := ih ((List.mem_cons.mp h).resolve_left (Ne.symm hx))
      refine ⟨behind, by simpa [hx] using hdrop, ?_⟩
      nth_rewrite 1 [hchunk]
      simp [hx]

theorem takeWhile_of_not_mem {chunk : List α} (h : lf ∉ chunk) :
    chunk.takeWhile (· ≠ lf) = chunk ∧ chunk.dropWhile (· ≠ lf) = [] := by
  have hall : ∀ x ∈ chunk, decide (x ≠ lf) = true := by
    intro x hx
    refine decide_eq_true ?_
    rintro rfl
    exact h hx
  exact ⟨List.takeWhile_eq_self_iff.mpr hall, List.dropWhile_eq_nil_iff.mpr hall⟩

theorem not_mem_takeWhile (chunk : List α) : lf ∉ chunk.takeWhile (· ≠ lf) := by
  intro h
  simpa using List.mem_takeWhile_imp h

theorem chunkLines_sublist (line : List α) (chunks : List (List α)) :
    (chunkLines lf line chunks).flatten.Sublist (line ++ chunks.flatten) := by
  induction chunks generalizing line with
  | nil => simp [chunkLines]
  | cons chunk chunks ih =>
    rw [chunkLines]
    split_ifs with hlf
    · obtain ⟨behind, -, hchunk⟩ := exists_dropWhile hlf
      rw [List.flatten_cons, List.flatten_cons, List.append_assoc line, List.append_assoc line]
      refine (List.Sublist.refl line).append ?_
      nth_rewrite 2 [hchunk]
      rw [List.append_assoc, List.append_assoc]
      refine (List.Sublist.refl _).append ?_
      exact ((ih []).trans (List.sublist_append_right behind _)).cons_cons lf
    · simpa using ih (line ++ chunk)

/-- Every line has its LF. -/
theorem length_chunkLines_le (line : List α) (chunks : List (List α)) :
    (chunkLines lf line chunks).length ≤ chunks.flatten.count lf := by
  induction chunks generalizing line with
  | nil => simp [chunkLines]
  | cons chunk chunks ih =>
    rw [chunkLines, List.flatten_cons, List.count_append]
    split_ifs with hlf
    · have := List.count_pos_iff.mpr hlf
      have := ih []
      rw [List.length_cons]
      omega
    · exact le_trans (ih _) (Nat.le_add_left _ _)

/-- A line that is found goes on from what has been read of it. -/
theorem exists_of_chunkLines {line first : List α} {chunks rest : List (List α)}
    (h : chunkLines lf line chunks = first :: rest) : ∃ middle, first = line ++ middle ++ [lf] := by
  induction chunks generalizing line with
  | nil => cases h
  | cons chunk chunks ih =>
    rw [chunkLines] at h
    split_ifs at h with hlf
    · cases h
      exact ⟨_, rfl⟩
    · obtain ⟨middle, rfl⟩ := ih h
      exact ⟨chunk ++ middle, by simp⟩

/-! ### When they agree -/

theorem crlfs_cons_le (hne : cr ≠ lf) (y : α) (ys : List α) :
    crlfs cr lf true (y :: ys) ≤ ys.count cr + 1 := by
  have := crlfs_le hne (decide (y = cr)) ys
  rw [crlfs]
  by_cases hy : y = cr
  · simpa [hy, hne] using this
  · simp only [hy, decide_false, Bool.false_eq_true, ↓reduceIte] at this ⊢
    split_ifs <;> omega

/-- Where only CRLFs can make up for the symbols before the stream, there is none, or the
CR of a CRLF. -/
theorem behind_of_crlfs (hne : cr ≠ lf) {behind stream : List α}
    (h : behind.length + stream.count cr ≤ crlfs cr lf false (behind ++ stream)) :
    behind = [] ∨ behind = [cr] ∧ stream.head? = some lf := by
  match behind with
  | [] => exact .inl rfl
  | x :: behind =>
    have hrest := crlfs_le hne (decide (x = cr)) (behind ++ stream)
    have hle : behind.count cr ≤ behind.length := List.count_le_length
    rw [List.count_append] at hrest
    rw [List.cons_append, crlfs, if_neg (by simp), List.length_cons] at h
    by_cases hx : x = cr
    swap
    · simp only [hx, decide_false, Bool.false_eq_true, ↓reduceIte] at hrest h
      omega
    simp only [hx, decide_true] at h
    match behind with
    | y :: behind =>
      have hbound := crlfs_cons_le hne y (behind ++ stream)
      have hle : behind.count cr ≤ behind.length := List.count_le_length
      rw [List.count_append] at hbound
      rw [List.cons_append, List.length_cons] at h
      omega
    | [] =>
      refine .inr ⟨by rw [hx], ?_⟩
      match stream with
      | [] => simp [crlfs] at h
      | y :: stream =>
        have hbound := crlfs_le hne (decide (y = cr)) stream
        rw [List.nil_append, crlfs, List.count_cons] at h
        by_cases hy : y = lf
        · rw [hy]
          rfl
        · by_cases hycr : y = cr <;> simp [hy, hycr, hne] at hbound h <;> omega

/-- If the lines of a stream are those of the chunks behind its first symbols, these
have been lost without a loss: they are the CR of a CRLF, or none. -/
theorem behind_of_lines_eq (hne : cr ≠ lf) {behind : List α} {chunks : List (List α)}
    (h : lines cr lf false [] (behind ++ chunks.flatten) = chunkLines lf [] chunks) :
    behind = [] ∨ behind = [cr] ∧ chunks.flatten.head? = some lf := by
  have hsub : (chunkLines lf [] chunks).flatten.Sublist chunks.flatten :=
    chunkLines_sublist [] chunks
  have hlength := length_flatten_lines hne false [] (behind ++ chunks.flatten)
  have hcr : cr ∉ (lines cr lf false [] (behind ++ chunks.flatten)).flatten :=
    not_mem_lines hne List.not_mem_nil
  rw [h] at hlength hcr
  have hlost := hsub.le_count cr
  have hle := hsub.length_le
  rw [List.count_eq_zero.mpr hcr] at hlost
  rw [List.length_append, List.length_nil] at hlength
  -- every CR is lost, and only as many symbols as there are CRLFs
  apply behind_of_crlfs hne
  omega

/-- A CR in a chunk that is before its first LF stays in the chunk's line. -/
theorem lines_ne_chunkLines (hne : cr ≠ lf) {line chunk : List α} {chunks : List (List α)}
    (hline : cr ∉ line) (hcr : cr ∈ chunk.takeWhile (· ≠ lf)) :
    lines cr lf false line (chunk ++ chunks.flatten) ≠ chunkLines lf line (chunk :: chunks) := by
  intro heq
  have hnot : cr ∉ (lines cr lf false line (chunk ++ chunks.flatten)).flatten :=
    not_mem_lines hne hline
  rw [heq, chunkLines] at hnot
  split_ifs at hnot with hlf
  · apply hnot
    rw [List.flatten_cons]
    exact List.mem_append_left _ (List.mem_append_left _ (List.mem_append_right _ hcr))
  · rw [chunkLines, if_neg hlf] at heq
    have hmem : cr ∈ chunk := (List.takeWhile_sublist _).subset hcr
    cases hrest : chunkLines lf (line ++ chunk) chunks with
    | nil =>
      match chunk with
      | x :: chunk =>
        rw [List.cons_append, lines_cons hne, hrest] at heq
        cases heq
    | cons first rest =>
      obtain ⟨middle, rfl⟩ := exists_of_chunkLines hrest
      rw [hrest] at hnot
      apply hnot
      simp [hmem]

/-- With `line` begun, the lines of the stream are those of its chunks if and only if
the chunks end with them. -/
theorem lines_eq_chunkLines_iff (hne : cr ≠ lf) {line : List α} {chunks : List (List α)}
    (hchunks : [] ∉ chunks) (hline : cr ∉ line) :
    lines cr lf false line chunks.flatten = chunkLines lf line chunks ↔
      Aligned cr lf (line ≠ []) chunks := by
  induction chunks generalizing line with
  | nil => by_cases hempty : line = [] <;> simp [lines, chunkLines, Aligned, hempty]
  | cons chunk chunks ih =>
    rw [List.mem_cons, not_or] at hchunks
    rw [List.flatten_cons, Aligned]
    by_cases hcr : cr ∈ chunk.takeWhile (· ≠ lf)
    · exact iff_of_false (lines_ne_chunkLines hne hline hcr) fun h => h.1 hcr
    by_cases hlf : lf ∈ chunk
    · obtain ⟨behind, hdrop, hchunk⟩ := exists_dropWhile hlf
      have hbehind : lines cr lf false [] (behind ++ chunks.flatten) = chunkLines lf [] chunks → _ :=
        behind_of_lines_eq hne
      have hlines : lines cr lf false line (chunk ++ chunks.flatten) =
          (line ++ chunk.takeWhile (· ≠ lf) ++ [lf]) ::
            lines cr lf false [] (behind ++ chunks.flatten) := by
        nth_rewrite 1 [hchunk]
        rw [List.append_assoc, lines_append hcr (not_mem_takeWhile chunk), List.cons_append, lines,
          if_neg (by simp), if_pos (.inl rfl), decide_eq_false hne.symm]
      rw [hlines, chunkLines, if_pos hlf, hdrop, List.cons.injEq]
      simp only [true_and, hcr, not_false_eq_true]
      have hcase : behind = [] ∨ behind = [cr] ∧ chunks.flatten.head? = some lf →
          (lines cr lf false [] (behind ++ chunks.flatten) = chunkLines lf [] chunks ↔
            Aligned cr lf false chunks) := by
        have hih : lines cr lf false [] chunks.flatten = chunkLines lf [] chunks ↔
            Aligned cr lf false chunks := ih hchunks.2 List.not_mem_nil
        rintro (rfl | ⟨rfl, hhead⟩)
        · exact hih
        · obtain ⟨xs, hxs⟩ := List.head?_eq_some_iff.mp hhead
          rw [hxs] at hih ⊢
          rw [List.singleton_append, lines_crlf hne]
          exact hih
      constructor
      · intro heq
        exact ⟨hbehind heq, (hcase (hbehind heq)).mp heq⟩
      · rintro ⟨hend, haligned⟩
        exact (hcase hend).mpr haligned
    · obtain ⟨htake, hdrop⟩ := takeWhile_of_not_mem hlf
      rw [htake] at hcr
      have hbegun : line ++ chunk ≠ [] := by simp [Ne.symm hchunks.1]
      have hih := ih hchunks.2 (show cr ∉ line ++ chunk by simp [hline, hcr])
      rw [lines_append hcr hlf, chunkLines, if_neg hlf, hdrop, htake, hih, decide_eq_true hbegun]
      simp [hcr]

/-- Some of the lines that are found cannot be all lines of the stream. -/
theorem chunkLines_eq_of_prefix (hne : cr ≠ lf) {chunks : List (List α)}
    (h : lines cr lf false [] chunks.flatten <+: chunkLines lf [] chunks) :
    lines cr lf false [] chunks.flatten = chunkLines lf [] chunks := by
  apply h.eq_of_length
  have hle := h.length_le
  have hfound : (chunkLines lf [] chunks).length ≤ _ := length_chunkLines_le [] chunks
  have hcount := count_le_length_lines hne false [] chunks.flatten
  simp only [Bool.false_eq_true, ↓reduceIte] at hcount
  omega

end OsProgramming.Library
