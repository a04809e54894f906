import OsProgramming.Library.Numeral
import OsProgramming.Library.Text

/-! `itimerspecFromStr`, which cuts the text of its argument where it stands. -/

namespace OsProgramming.Tlpi

open Library

def nul : Char := '\x00'

structure Timespec where
  tvSec : ℤ
  tvNsec : ℤ
  deriving DecidableEq

structure Itimerspec where
  itValue : Timespec
  itInterval : Timespec
  deriving DecidableEq

/-- Where a character is in the string at the start of a block. -/
def strchr (c : Char) : List Char → Result (Option ℕ)
  | [] => .error .outOfBounds
  | x :: block =>
    if x = c then .ok (some 0)
    else if x = nul then .ok none
    else do
      let i ← strchr c block
      .ok (i.map (· + 1))

/-- `strtol` with its result as an `int`, as in the C library of GNU. -/
def atoi (block : List Char) : Result ℤ :=
  if nul ∈ block then .ok (wrapInt (strtol (cString nul block) 10).value) else .error .outOfBounds

/-- One half of the argument. -/
def timespecAt (str : List Char) (start : ℕ) : Result (List Char × Timespec) := do
  match ← strchr '/' (str.drop start) with
  | none =>
    let sec ← atoi (str.drop start)
    .ok (str, ⟨sec, 0⟩)
  | some i =>
    let str ← store str (start + i : ℕ) [nul]
    let sec ← atoi (str.drop start)
    let nsec ← atoi (str.drop (start + i + 1))
    .ok (str, ⟨sec, nsec⟩)

/-- What becomes of the argument, and what is stored in `tsp`. -/
def itimerspecFromStr (str : List Char) : Result (List Char × Itimerspec) := do
  match ← strchr ':' str with
  | none =>
    let (str, value) ← timespecAt str 0
    .ok (str, ⟨value, ⟨0, 0⟩⟩)
  | some i =>
    let str ← store str i [nul]
    let (str, value) ← timespecAt str 0
    let (str, interval) ← timespecAt str (i + 1)
    .ok (str, ⟨value, interval⟩)

/-! ### The parts of a text -/

/-- What stands before a separator, and behind it. -/
def cut (c : Char) (text : List Char) : List Char × Option (List Char) :=
  (text.takeWhile (· ≠ c), if c ∈ text then some (text.dropWhile (· ≠ c)).tail else none)

section Parts

variable {c : Char} {text before : List Char}

theorem cut_of_not_mem (h : c ∉ text) : cut c text = (text, none) := by
  rw [cut, if_neg h]
  exact congrArg (·, none) (cString_eq_self h)

theorem cut_append (h : c ∉ before) (behind : List Char) :
    cut c (before ++ c :: behind) = (before, some behind) := by
  have hall : ∀ x ∈ before, decide (x ≠ c) = true := fun x hx => decide_eq_true fun heq => h (heq ▸ hx)
  rw [cut, if_pos (by simp), List.takeWhile_append_of_pos hall, List.dropWhile_append_of_pos hall]
  simp

/-- A half of the argument, as `atoi` reads its parts. -/
def timespecOf (text : List Char) : Timespec where
  tvSec := wrapInt (strtol (cut '/' text).1 10).value
  tvNsec := ((cut '/' text).2.map fun nsec => wrapInt (strtol nsec 10).value).getD 0

/-- A text whose first separator has been overwritten. -/
def cleared (c : Char) (text : List Char) : List Char :=
  (cut c text).1 ++ ((cut c text).2.map (nul :: ·)).getD []

theorem length_cleared (c : Char) (text : List Char) : (cleared c text).length = text.length := by
  by_cases hmem : c ∈ text
  · obtain ⟨before, behind, rfl, hbefore⟩ := List.eq_append_cons_of_mem hmem
    simp [cleared, cut_append hbefore]
  · simp [cleared, cut_of_not_mem hmem]

theorem strchr_of_not_mem (hc : c ∉ text) (hnul : nul ∉ text) (hne : c ≠ nul) (rest : List Char) :
    strchr c (text ++ nul :: rest) = .ok none := by
  induction text with
  | nil => rw [List.nil_append, strchr, if_neg hne.symm, if_pos rfl]
  | cons x text ih =>
    rw [List.mem_cons, not_or] at hc hnul
    rw [List.cons_append, strchr, if_neg (Ne.symm hc.1), if_neg (Ne.symm hnul.1), ih hc.2 hnul.2]
    rfl

theorem strchr_append (hc : c ∉ before) (hnul : nul ∉ before) (rest : List Char) :
    strchr c (before ++ c :: rest) = .ok (some before.length) := by
  induction before with
  | nil => rw [List.nil_append, strchr, if_pos rfl, List.length_nil]
  | cons x before ih =>
    rw [List.mem_cons, not_or] at hc hnul
    rw [List.cons_append, strchr, if_neg (Ne.symm hc.1), if_neg (Ne.symm hnul.1), ih hc.2 hnul.2]
    rfl

theorem atoi_append (hnul : nul ∉ text) (rest : List Char) :
    atoi (text ++ nul :: rest) = .ok (wrapInt (strtol text 10).value) := by
  rw [atoi, if_pos (by simp), cString_append hnul]

/-- The separator that has been found is overwritten. -/
theorem store_nul (before : List Char) (c : Char) (rest : List Char) :
    store (before ++ c :: rest) before.length [nul] = .ok (before ++ nul :: rest) := by
  rw [store_one _ (by simp), List.set_append_right _ _ le_rfl, Nat.sub_self, List.set_cons_zero]

theorem timespecAt_eq (before : List Char) (hnul : nul ∉ text) (rest : List Char) :
    timespecAt (before ++ (text ++ nul :: rest)) before.length =
      .ok (before ++ (cleared '/' text ++ nul :: rest), timespecOf text) := by
  by_cases hmem : '/' ∈ text
  · obtain ⟨sec, nsec, rfl, hsec⟩ := List.eq_append_cons_of_mem hmem
    rw [List.mem_append, List.mem_cons, not_or, not_or] at hnul
    obtain ⟨hnulSec, -, hnulNsec⟩ := hnul
    have hcut := cut_append hsec nsec
    have hstore : store (before ++ (sec ++ '/' :: (nsec ++ nul :: rest)))
        (before.length + sec.length : ℕ) [nul] =
          .ok (before ++ (sec ++ nul :: (nsec ++ nul :: rest))) := by
      have hset := store_nul (before ++ sec) '/' (nsec ++ nul :: rest)
      simpa only [List.length_append, List.append_assoc] using hset
    have hdrop : (before ++ (sec ++ nul :: (nsec ++ nul :: rest))).drop (before.length + sec.length + 1) =
        nsec ++ nul :: rest := by
      have hsplit : before ++ (sec ++ nul :: (nsec ++ nul :: rest)) =
          (before ++ sec ++ [nul]) ++ (nsec ++ nul :: rest) := by simp
      rw [hsplit]
      exact List.drop_left' (by simp [Nat.add_assoc])
    rw [timespecAt, List.append_assoc, List.cons_append, List.drop_left, strchr_append hsec hnulSec,
      ok_bind]
    dsimp only
    rw [hstore, ok_bind, List.drop_left, atoi_append hnulSec, ok_bind, hdrop, atoi_append hnulNsec, ok_bind]
    simp [timespecOf, cleared, hcut]
  · have hcut := cut_of_not_mem hmem
    rw [timespecAt, List.drop_left, strchr_of_not_mem hmem hnul (by decide), ok_bind]
    dsimp only
    rw [atoi_append hnul, ok_bind]
    simp [timespecOf, cleared, hcut]

/-- For every string: the function stays within it, reads what stands between its separators, and
overwrites these. -/
theorem itimerspecFromStr_eq (hnul : nul ∉ text) (rest : List Char) :
    itimerspecFromStr (text ++ nul :: rest) =
      match cut ':' text with
      | (value, none) => .ok (cleared '/' value ++ nul :: rest, ⟨timespecOf value, ⟨0, 0⟩⟩)
      | (value, some interval) =>
        .ok (cleared '/' value ++ nul :: (cleared '/' interval ++ nul :: rest),
          ⟨timespecOf value, timespecOf interval⟩) := by
  by_cases hmem : ':' ∈ text
  · obtain ⟨value, interval, rfl, hvalue⟩ := List.eq_append_cons_of_mem hmem
    rw [List.mem_append, List.mem_cons, not_or, not_or] at hnul
    obtain ⟨hnulValue, -, hnulInterval⟩ := hnul
    have hfirst := timespecAt_eq [] hnulValue (interval ++ nul :: rest)
    have hsecond := timespecAt_eq (cleared '/' value ++ [nul]) hnulInterval rest
    rw [itimerspecFromStr, List.append_assoc, List.cons_append, strchr_append hvalue hnulValue, ok_bind]
    dsimp only
    rw [List.nil_append, List.length_nil] at hfirst
    rw [List.length_append, length_cleared, List.append_assoc, List.singleton_append] at hsecond
    rw [store_nul, ok_bind, hfirst, ok_bind]
    dsimp only
    rw [List.nil_append]
    have hstart : value.length + [nul].length = value.length + 1 := rfl
    rw [hstart] at hsecond
    rw [hsecond, ok_bind, cut_append hvalue]
    simp
  · rw [cut_of_not_mem hmem, itimerspecFromStr, strchr_of_not_mem hmem hnul (by decide), ok_bind]
    dsimp only
    have hfirst := timespecAt_eq [] hnul rest
    rw [List.nil_append, List.length_nil] at hfirst
    rw [hfirst, ok_bind]
    rfl

end Parts

/-! ### What is written as the comment says -/

/-- "value.sec[/value.nanosec]". -/
structure TimeText where
  sec : Numeral 10
  nsec : Option (Numeral 10)

namespace TimeText

/-- The text, with its separator or what stands in its place. -/
def text (t : TimeText) (separator : Char) : List Char :=
  t.sec.text ++ (t.nsec.map fun nsec => separator :: nsec.text).getD []

/-- An omitted component is 0. -/
def timespec (t : TimeText) : Timespec := ⟨t.sec.value, (t.nsec.map Numeral.value).getD 0⟩

/-- The numbers are of the type `int`. -/
def Fits (t : TimeText) : Prop :=
  ∀ n, n = t.sec ∨ t.nsec = some n → -intMax - 1 ≤ n.value ∧ n.value ≤ intMax

end TimeText

variable {c : Char}

/-- A number in base 10 has no prefix. -/
theorem not_mem_numeral (n : Numeral 10) (hspace : isSpace c = false) (hsign : c ≠ '-' ∧ c ≠ '+')
    (hdigit : isDigit 10 c = false) : c ∉ n.text := by
  have hradix : n.radix = .plain := by simpa using n.radix_of_base
  have hbase : n.radix.base 10 n.digits = 10 := by rw [hradix]; rfl
  have hdigits : c ∉ n.digits := by
    intro hmem
    have hall := n.isDigit_of_mem c hmem
    rw [hbase, hdigit] at hall
    cases hall
  have hspaces : c ∉ n.spaces := by
    intro hmem
    rw [n.isSpace_of_mem c hmem] at hspace
    cases hspace
  have hsigns : c ∉ n.sign.text := by
    cases n.sign <;> simp [Sign.text, hsign.1, hsign.2]
  simp [Numeral.text, hradix, Radix.text, hdigits, hspaces, hsigns]

theorem atoi_numeral (n : Numeral 10) (hlow : -intMax - 1 ≤ n.value) (hhigh : n.value ≤ intMax) :
    wrapInt (strtol n.text 10).value = n.value := by
  have hrange : longMin ≤ n.value ∧ n.value ≤ longMax := by
    simp only [intMax, longMin, longMax] at *
    omega
  rw [n.strtol_text, toLong_of_le _ hrange.1 hrange.2, wrapInt, Int.bmod_def]
  simp only [intMax] at hlow hhigh ⊢
  split_ifs <;> omega

theorem slash_not_mem (n : Numeral 10) : '/' ∉ n.text :=
  not_mem_numeral n (by decide) (by decide) (by decide)

theorem cut_timeText (t : TimeText) :
    cut '/' (t.text '/') = (t.sec.text, t.nsec.map Numeral.text) := by
  rw [TimeText.text]
  cases t.nsec with
  | none => exact (congrArg (cut '/') (List.append_nil _)).trans (cut_of_not_mem (slash_not_mem t.sec))
  | some nsec => exact cut_append (slash_not_mem t.sec) nsec.text

theorem timespecOf_timeText {t : TimeText} (h : t.Fits) : timespecOf (t.text '/') = t.timespec := by
  obtain ⟨hlow, hhigh⟩ := h t.sec (.inl rfl)
  rw [timespecOf, cut_timeText, TimeText.timespec, atoi_numeral t.sec hlow hhigh]
  cases hnsec : t.nsec with
  | none => rfl
  | some nsec =>
    obtain ⟨hlow', hhigh'⟩ := h nsec (.inr hnsec)
    simp [atoi_numeral nsec hlow' hhigh']

theorem cleared_timeText (t : TimeText) : cleared '/' (t.text '/') = t.text nul := by
  rw [cleared, cut_timeText, TimeText.text]
  cases t.nsec <;> rfl

theorem not_mem_timeText (t : TimeText) (hspace : isSpace c = false) (hsign : c ≠ '-' ∧ c ≠ '+')
    (hdigit : isDigit 10 c = false) (hslash : c ≠ '/') : c ∉ t.text '/' := by
  have hnot := fun n => not_mem_numeral (c := c) n hspace hsign hdigit
  rw [TimeText.text]
  cases t.nsec <;> simp [hnot, hslash]

/-- The argument, with its two separators or what stands in their places. -/
def argument (colon slash : Char) (value : TimeText) (interval : Option TimeText) : List Char :=
  value.text slash ++ (interval.map fun interval => colon :: interval.text slash).getD []

/-- Numbers that are written as the comment of the function says are read again, those that are
omitted as 0, and nothing of the argument is overwritten but its separators. -/
theorem itimerspec_from_str {value : TimeText} {interval : Option TimeText} (hvalue : value.Fits)
    (hinterval : ∀ t, interval = some t → t.Fits) (rest : List Char) :
    itimerspecFromStr (argument ':' '/' value interval ++ nul :: rest) =
      .ok (argument nul nul value interval ++ nul :: rest,
        ⟨value.timespec, (interval.map TimeText.timespec).getD ⟨0, 0⟩⟩) := by
  have hnul : ∀ t : TimeText, nul ∉ t.text '/' := fun t =>
    not_mem_timeText t (by decide) (by decide) (by decide) (by decide)
  have hcolon : ':' ∉ value.text '/' :=
    not_mem_timeText value (by decide) (by decide) (by decide) (by decide)
  cases interval with
  | none =>
    have heq := itimerspecFromStr_eq (hnul value) rest
    rw [cut_of_not_mem hcolon] at heq
    simpa [argument, cleared_timeText, timespecOf_timeText hvalue] using heq
  | some interval =>
    have hne : nul ≠ ':' := by decide
    have hargument : nul ∉ value.text '/' ++ ':' :: interval.text '/' := by
      simp [hnul, hne]
    have heq := itimerspecFromStr_eq hargument rest
    rw [cut_append hcolon] at heq
    simpa [argument, cleared_timeText, timespecOf_timeText hvalue,
      timespecOf_timeText (hinterval interval rfl)] using heq

def five : Numeral 10 :=
  ⟨[' '], .none, .plain, ['5'], List.all_eq_true.mp (by decide), by decide, by decide,
    List.all_eq_true.mp (by decide)⟩

def minusTwelve : Numeral 10 :=
  ⟨[], .minus, .plain, ['1', '2'], List.all_eq_true.mp (by decide), by decide, by decide,
    List.all_eq_true.mp (by decide)⟩

theorem itimerspec_from_str_interval :
    itimerspecFromStr [' ', '5', '/', '-', '1', '2', ':', '-', '1', '2', '\x00'] =
      .ok ([' ', '5', '\x00', '-', '1', '2', '\x00', '-', '1', '2', '\x00'], ⟨⟨5, -12⟩, ⟨-12, 0⟩⟩) := by
  have hvalue : TimeText.Fits ⟨five, some minusTwelve⟩ := by
    rintro n (rfl | hn)
    · decide
    · cases hn
      decide
  have hinterval : ∀ t : TimeText, some ⟨minusTwelve, none⟩ = some t → t.Fits := by
    rintro t ht n (rfl | hn) <;> cases ht
    · decide
    · cases hn
  exact itimerspec_from_str hvalue hinterval []

end OsProgramming.Tlpi
