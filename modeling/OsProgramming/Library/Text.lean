import OsProgramming.Library.Memory
import Mathlib.Data.List.TakeWhile

/-! Lines that are read into a buffer. `fgets` stops at the end of a line or of the buffer, so
a long line comes in pieces, and a string in a buffer ends at its first `NUL`. -/

namespace OsProgramming.Library

variable {α : Type*}

/-- A block is written from its start on. -/
theorem store_start {block xs : List α} (h : xs.length ≤ block.length) :
    store block 0 xs = .ok (xs ++ block.drop xs.length) := by
  have hstore : store block (0 : ℕ) xs = .ok _ := store_natCast block (by omega)
  rwa [Nat.cast_zero, List.take_zero, List.nil_append, Nat.zero_add] at hstore

def pieces (n : ℕ) (xs : List α) : List (List α) :=
  if _h : xs = [] ∨ n = 0 then [] else xs.take n :: pieces n (xs.drop n)
  termination_by xs.length
  decreasing_by
    rw [not_or] at _h
    have := List.length_pos_iff.mpr _h.1
    rw [List.length_drop]
    omega

@[simp] theorem pieces_nil (n : ℕ) : pieces n ([] : List α) = [] := by
  rw [pieces, dif_pos (.inl rfl)]

theorem pieces_cons {n : ℕ} {xs : List α} (hxs : xs ≠ []) (hn : n ≠ 0) :
    pieces n xs = xs.take n :: pieces n (xs.drop n) := by
  rw [pieces, dif_neg (by simp [hxs, hn])]

/-- What fits into one piece. -/
theorem pieces_of_le {n : ℕ} {xs : List α} (hxs : xs ≠ []) (hn : xs.length ≤ n) :
    pieces n xs = [xs] := by
  have hpos := List.length_pos_iff.mpr hxs
  rw [pieces_cons hxs (by omega), List.take_of_length_le hn, List.drop_eq_nil_of_le hn, pieces_nil]

/-- The text of some lines. -/
def joined (newline : α) (lines : List (List α)) : List α := (lines.map (· ++ [newline])).flatten

@[simp] theorem joined_nil (newline : α) : joined newline [] = [] := rfl

@[simp] theorem joined_cons (newline : α) (line : List α) (lines : List (List α)) :
    joined newline (line :: lines) = line ++ newline :: joined newline lines := by
  simp [joined]

theorem joined_append (newline : α) (lines lines' : List (List α)) :
    joined newline (lines ++ lines') = joined newline lines ++ joined newline lines' := by
  simp [joined]

/-- What is left of a text is again a text. -/
theorem drop_joined (newline : α) {P : List α → Prop} (hP : ∀ line k, P line → P (line.drop k))
    {lines : List (List α)} (hlines : ∀ line ∈ lines, P line) (k : ℕ) :
    ∃ lines', (joined newline lines).drop k = joined newline lines' ∧ ∀ line ∈ lines', P line := by
  induction lines generalizing k with
  | nil => exact ⟨[], by simp, hlines⟩
  | cons line lines ih =>
    obtain ⟨hline, hrest⟩ := List.forall_mem_cons.mp hlines
    rcases Nat.lt_or_ge line.length k with hlong | hfit
    · obtain ⟨lines', hdrop, hall⟩ := ih hrest (k - line.length - 1)
      refine ⟨lines', ?_, hall⟩
      obtain ⟨m, rfl⟩ := Nat.exists_eq_add_of_lt hlong
      rw [← hdrop, joined_cons, List.drop_append]
      simp [Nat.add_assoc]
    · refine ⟨line.drop k :: lines, ?_, List.forall_mem_cons.mpr ⟨hP line k hline, hrest⟩⟩
      rw [joined_cons, joined_cons, List.drop_append_of_le_length hfit]

/-- The first line ends within the first symbols. -/
theorem mem_take_joined {newline : α} {lines : List (List α)} {n : ℕ} (hne : lines ≠ [])
    (hlines : ∀ line ∈ lines, line.length < n) : newline ∈ (joined newline lines).take n := by
  cases lines with
  | nil => exact absurd rfl hne
  | cons line lines =>
    have hline := hlines line List.mem_cons_self
    obtain ⟨m, rfl⟩ := Nat.exists_eq_add_of_lt hline
    rw [joined_cons, List.take_append]
    simp [Nat.add_assoc]

variable [DecidableEq α]

/-- What `fgets` reads of the input where `room` symbols are left, and the rest. -/
def fgets (newline : α) : ℕ → List α → List α × List α
  | 0, input => ([], input)
  | _ + 1, [] => ([], [])
  | room + 1, c :: input =>
    if c = newline then ([c], input)
    else
      let (chunk, rest) := fgets newline room input
      (c :: chunk, rest)

/-- The string at the start of a block. -/
def cString (nul : α) (block : List α) : List α := block.takeWhile (· ≠ nul)

/-- A line that fits is read with its end. -/
theorem fgets_line {newline : α} {room : ℕ} {line : List α} (hline : newline ∉ line)
    (hroom : line.length < room) (rest : List α) :
    fgets newline room (line ++ newline :: rest) = (line ++ [newline], rest) := by
  induction line generalizing room with
  | nil =>
    obtain ⟨room, rfl⟩ := Nat.exists_eq_succ_of_ne_zero (Nat.ne_of_gt hroom)
    simp [fgets]
  | cons c line ih =>
    obtain ⟨room, rfl⟩ := Nat.exists_eq_succ_of_ne_zero (Nat.ne_zero_of_lt hroom)
    rw [List.mem_cons, not_or] at hline
    rw [List.length_cons, Nat.succ_lt_succ_iff] at hroom
    rw [List.cons_append, fgets, if_neg (Ne.symm hline.1), ih hline.2 hroom, List.cons_append]

/-- A line that does not fit fills the buffer. -/
theorem fgets_piece {newline : α} {room : ℕ} {line : List α} (hline : newline ∉ line)
    (hroom : room ≤ line.length) (rest : List α) :
    fgets newline room (line ++ rest) = (line.take room, line.drop room ++ rest) := by
  induction room generalizing line with
  | zero => rw [fgets, List.take_zero, List.drop_zero]
  | succ room ih =>
    cases line with
    | nil => simp at hroom
    | cons c line =>
      rw [List.mem_cons, not_or] at hline
      rw [List.length_cons, Nat.succ_le_succ_iff] at hroom
      rw [List.cons_append, fgets, if_neg (Ne.symm hline.1), ih hline.2 hroom, List.take_succ_cons,
        List.drop_succ_cons]

theorem cString_eq_self {nul : α} {text : List α} (htext : nul ∉ text) : cString nul text = text := by
  rw [cString, List.takeWhile_eq_self_iff]
  intro c hc
  have hne : c ≠ nul := fun heq => htext (heq ▸ hc)
  simpa using hne

theorem not_mem_cString (nul : α) (block : List α) : nul ∉ cString nul block := by
  intro hmem
  simpa using List.mem_takeWhile_imp hmem

theorem length_cString_le (nul : α) (block : List α) : (cString nul block).length ≤ block.length :=
  (List.takeWhile_sublist _).length_le

/-- A string that was read into a block of `NUL`s. -/
theorem cString_padded (nul : α) (block : List α) (k : ℕ) :
    cString nul (block ++ List.replicate k nul) = cString nul block := by
  induction block with
  | nil => cases k <;> simp [cString, List.replicate_succ]
  | cons c block ih =>
    by_cases hc : c = nul
    · simp [cString, hc]
    · simp only [cString, List.cons_append] at ih ⊢
      rw [List.takeWhile_cons_of_pos (by simpa using hc), List.takeWhile_cons_of_pos (by simpa using hc), ih]

/-- A string ends at the first `NUL`, also where it is one of its own. -/
theorem cString_append_nul (nul : α) (text rest : List α) :
    cString nul (text ++ nul :: rest) = cString nul text := by
  induction text with
  | nil => simp [cString]
  | cons c text ih =>
    by_cases hc : c = nul
    · simp [cString, hc]
    · simp only [cString, List.cons_append] at ih ⊢
      rw [List.takeWhile_cons_of_pos (by simpa using hc), List.takeWhile_cons_of_pos (by simpa using hc), ih]

theorem cString_plain_append {nul : α} {plain : List α} (hplain : nul ∉ plain) (text : List α) :
    cString nul (plain ++ text) = plain ++ cString nul text := by
  rw [cString, List.takeWhile_append_of_pos]
  · rfl
  · intro c hc
    have hne : c ≠ nul := fun heq => hplain (heq ▸ hc)
    simpa using hne

theorem cString_take (nul : α) (text : List α) (k : ℕ) :
    cString nul (text.take k) = (cString nul text).take k := by
  induction text generalizing k with
  | nil => simp [cString]
  | cons c text ih =>
    cases k with
    | zero => simp [cString]
    | succ k =>
      by_cases hc : c = nul
      · simp [cString, hc]
      · simp only [cString, List.take_succ_cons] at ih ⊢
        rw [List.takeWhile_cons_of_pos (by simpa using hc), List.takeWhile_cons_of_pos (by simpa using hc),
          List.take_succ_cons, ih]

theorem take_length_cString (nul : α) (block : List α) :
    block.take (cString nul block).length = cString nul block :=
  List.prefix_iff_eq_take.mp (List.takeWhile_prefix _) |>.symm

theorem cString_append {nul : α} {text : List α} (htext : nul ∉ text) (rest : List α) :
    cString nul (text ++ nul :: rest) = text := by
  rw [cString, List.takeWhile_append_of_pos]
  · simp
  · intro c hc
    have hne : c ≠ nul := fun heq => htext (heq ▸ hc)
    simpa using hne

/-- The cells that `strncpy` writes. -/
def strncpy (nul : α) (count : ℕ) (text : List α) : List α :=
  (cString nul text).take count ++ List.replicate (count - (cString nul text).length) nul

@[simp] theorem length_strncpy (nul : α) (count : ℕ) (text : List α) :
    (strncpy nul count text).length = count := by
  rw [strncpy, List.length_append, List.length_take, List.length_replicate]
  omega

/-- A text that fits is copied. -/
theorem cString_strncpy {nul : α} {count : ℕ} {text : List α} (h : (cString nul text).length ≤ count) :
    cString nul (strncpy nul count text) = cString nul text := by
  rw [strncpy, cString_padded, List.take_of_length_le h, cString_eq_self (not_mem_cString nul text)]

/-- The string of a block, which has to have an end. -/
def loadString (nul : α) (block : List α) : Result (List α) :=
  if nul ∈ block then .ok (cString nul block) else .error .outOfBounds

/-- `snprintf` of a text, from a place of the block on and with room for `size` symbols. -/
def snprintf (nul : α) (block : List α) (i size : ℕ) (text : List α) : Result (List α) :=
  if size = 0 then .ok block else store block i (text.take (size - 1) ++ [nul])

def strcat (nul : α) (block text : List α) : Result (List α) := do
  let string ← loadString nul block
  store block string.length (cString nul text ++ [nul])

/-- A block that holds a string. -/
structure HoldsString (nul : α) (size : ℕ) (string block : List α) : Prop where
  length : block.length = size
  ends : nul ∈ block
  string : cString nul block = string

section Strings

variable {nul : α} {size : ℕ} {string block : List α}

theorem HoldsString.loadString (h : HoldsString nul size string block) : loadString nul block = .ok string := by
  rw [Library.loadString, if_pos h.ends, h.string]

theorem HoldsString.take_length (h : HoldsString nul size string block) :
    block.take string.length = string := by
  rw [← h.string]
  exact take_length_cString nul block

theorem HoldsString.not_mem_take (h : HoldsString nul size string block) :
    nul ∉ block.take string.length := by
  rw [h.take_length, ← h.string]
  exact not_mem_cString nul block

/-- A text that is written behind a part of a block without `NUL`s. -/
theorem store_string {i : ℕ} (hplain : nul ∉ block.take i) {text : List α}
    (hroom : i + text.length < block.length) :
    ∃ block', store block i (text ++ [nul]) = .ok block' ∧
      HoldsString nul block.length (block.take i ++ cString nul text) block' := by
  have hfits : i + (text ++ [nul]).length ≤ block.length := by
    rw [List.length_append, List.length_singleton]
    omega
  refine ⟨_, store_natCast block hfits, length_stored _ hfits, by simp, ?_⟩
  rw [List.append_assoc, cString_plain_append hplain, List.append_assoc, List.singleton_append,
    cString_append_nul]

theorem snprintf_holds {i : ℕ} (hplain : nul ∉ block.take i) {room : ℕ} (hpos : 0 < room)
    (hroom : i + room ≤ block.length) (text : List α) :
    ∃ block', snprintf nul block i room text = .ok block' ∧
      HoldsString nul block.length (block.take i ++ (cString nul text).take (room - 1)) block' := by
  have hlength : (text.take (room - 1)).length ≤ room - 1 := List.length_take_le _ _
  rw [snprintf, if_neg hpos.ne', ← cString_take]
  exact store_string hplain (by omega)

/-- `snprintf` behind the string that is there. -/
theorem HoldsString.snprintf (h : HoldsString nul size string block) {room : ℕ} (hpos : 0 < room)
    (hroom : string.length + room ≤ size) (text : List α) :
    ∃ block', snprintf nul block string.length room text = .ok block' ∧
      HoldsString nul size (string ++ (cString nul text).take (room - 1)) block' := by
  have hwritten := snprintf_holds h.not_mem_take hpos (h.length ▸ hroom) text
  rwa [h.take_length, h.length] at hwritten

theorem HoldsString.strcat (h : HoldsString nul size string block) {text : List α}
    (hroom : string.length + (cString nul text).length < size) :
    ∃ block', strcat nul block text = .ok block' ∧ HoldsString nul size (string ++ cString nul text) block' := by
  have hwritten := store_string h.not_mem_take (h.length ▸ hroom)
  rw [h.take_length, h.length, cString_eq_self (not_mem_cString nul text)] at hwritten
  rwa [Library.strcat, h.loadString, ok_bind]

end Strings

end OsProgramming.Library
