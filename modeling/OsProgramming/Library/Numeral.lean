import OsProgramming.Library.Memory
import Mathlib.Data.List.TakeWhile
import Mathlib.Tactic.Common

/-! Numbers in text. A `Numeral` is a number as it may be written in a base, and `strtol` reads
the one at the start of its text. -/

namespace OsProgramming.Library

def longMin : ℤ := -2 ^ 63

def longMax : ℤ := 2 ^ 63 - 1

/-- `isspace` of the C locale. -/
def isSpace (c : Char) : Bool := c ∈ [' ', '\t', '\n', '\x0b', '\x0c', '\r']

/-- The value of a letter or a digit, in the bases that have it. -/
def digitValue (c : Char) : Option ℕ :=
  if '0' ≤ c ∧ c ≤ '9' then some (c.toNat - '0'.toNat)
  else if 'a' ≤ c ∧ c ≤ 'z' then some (c.toNat - 'a'.toNat + 10)
  else if 'A' ≤ c ∧ c ≤ 'Z' then some (c.toNat - 'A'.toNat + 10)
  else none

def isDigit (base : ℕ) (c : Char) : Bool := (digitValue c).any (· < base)

def digitsValue (base : ℕ) (digits : List Char) : ℕ :=
  digits.foldl (fun value c => value * base + (digitValue c).getD 0) 0

/-! ### `strtol` -/

/-- What `strtol` returns, whether `errno` is `ERANGE`, and the text at `endptr`. -/
structure Strtol where
  value : ℤ
  outOfRange : Bool
  rest : List Char
  deriving DecidableEq

def skipSign : List Char → Bool × List Char
  | '-' :: text => (true, text)
  | '+' :: text => (false, text)
  | text => (false, text)

/-- The text goes on with a number in base 16. -/
def hexPrefix : List Char → Bool
  | '0' :: x :: c :: _ => (x = 'x' || x = 'X') && isDigit 16 c
  | _ => false

/-- The base of the digits, and the text from the first one on. -/
def skipPrefix (base : ℕ) (text : List Char) : ℕ × List Char :=
  if (base = 0 ∨ base = 16) ∧ hexPrefix text then (16, text.drop 2)
  else if base = 0 then (if text.head? = some '0' then 8 else 10, text)
  else (base, text)

/-- The nearest value of the type, and whether it is another one. -/
def toLong (value : ℤ) (rest : List Char) : Strtol :=
  if value < longMin then ⟨longMin, true, rest⟩
  else if longMax < value then ⟨longMax, true, rest⟩
  else ⟨value, false, rest⟩

def strtol (text : List Char) (base : ℕ) : Strtol :=
  let (negative, unsigned) := skipSign (text.dropWhile isSpace)
  let (base, digits) := skipPrefix base unsigned
  let number : ℤ := digitsValue base (digits.takeWhile (isDigit base))
  if digits.takeWhile (isDigit base) = [] then ⟨0, false, text⟩
  else toLong (if negative then -number else number) (digits.dropWhile (isDigit base))

/-! ### Numbers as they are written -/

inductive Sign where
  | none
  | plus
  | minus
  deriving DecidableEq

def Sign.text : Sign → List Char
  | .none => []
  | .plus => ['+']
  | .minus => ['-']

/-- What stands before the digits, apart from the sign. -/
inductive Radix where
  | plain
  | hex
  | HEX
  deriving DecidableEq

def Radix.text : Radix → List Char
  | .plain => []
  | .hex => ['0', 'x']
  | .HEX => ['0', 'X']

/-- The base of the digits; `base` is 0 if they may be written in any. -/
def Radix.base (base : ℕ) (digits : List Char) : Radix → ℕ
  | .plain => if base = 0 then if digits.head? = some '0' then 8 else 10 else base
  | .hex | .HEX => 16

structure Numeral (base : ℕ) where
  spaces : List Char
  sign : Sign
  radix : Radix
  digits : List Char
  isSpace_of_mem : ∀ c ∈ spaces, isSpace c = true
  radix_of_base : base = 0 ∨ base = 16 ∨ radix = .plain
  nonempty : digits ≠ []
  isDigit_of_mem : ∀ c ∈ digits, isDigit (radix.base base digits) c = true

namespace Numeral

variable {base : ℕ} (n : Numeral base)

def text : List Char := n.spaces ++ n.sign.text ++ n.radix.text ++ n.digits

def value : ℤ :=
  let number : ℤ := digitsValue (n.radix.base base n.digits) n.digits
  if n.sign = .minus then -number else number

end Numeral

theorem toLong_rest (value : ℤ) (rest : List Char) : (toLong value rest).rest = rest := by
  rw [toLong]
  split_ifs <;> rfl

theorem toLong_outOfRange {value : ℤ} (rest : List Char) :
    (toLong value rest).outOfRange = true ↔ value < longMin ∨ longMax < value := by
  rw [toLong]
  split_ifs with hlow hhigh <;> simp [*]

theorem toLong_eq {value : ℤ} {rest : List Char} (h : (toLong value rest).outOfRange = false) :
    toLong value rest = ⟨value, false, rest⟩ ∧ longMin ≤ value ∧ value ≤ longMax := by
  have hin : ¬ (value < longMin ∨ longMax < value) := by
    rw [← toLong_outOfRange rest, h]
    exact Bool.false_ne_true
  rw [not_or, not_lt, not_lt] at hin
  rw [toLong, if_neg hin.1.not_gt, if_neg hin.2.not_gt]
  exact ⟨rfl, hin⟩

theorem toLong_of_le {value : ℤ} (rest : List Char) (hlow : longMin ≤ value) (hhigh : value ≤ longMax) :
    toLong value rest = ⟨value, false, rest⟩ := by
  rw [toLong, if_neg hlow.not_gt, if_neg hhigh.not_gt]

/-! ### Digits -/

theorem digitValue_of_isSpace {c : Char} (h : isSpace c = true) : digitValue c = none := by
  simp only [isSpace, List.mem_cons, List.not_mem_nil, or_false, decide_eq_true_eq] at h
  rcases h with rfl | rfl | rfl | rfl | rfl | rfl <;> decide

theorem isSome_of_isDigit {base : ℕ} {c : Char} (h : isDigit base c = true) :
    (digitValue c).isSome = true := by
  rw [isDigit] at h
  cases hvalue : digitValue c with
  | none => simp [hvalue] at h
  | some d => rfl

/-- Neither a blank nor a sign has a value. -/
theorem skipSign_of_isSome {c : Char} (h : (digitValue c).isSome = true) (text : List Char) :
    isSpace c = false ∧ skipSign (c :: text) = (false, c :: text) := by
  constructor
  · by_contra hspace
    rw [Bool.not_eq_false] at hspace
    rw [digitValue_of_isSpace hspace] at h
    cases h
  · rw [skipSign] <;> intro _ heq <;> cases heq <;> revert h <;> decide

theorem hexPrefix_eq_false {base : ℕ} {digits : List Char} (hbase : base ≤ 16)
    (hdigits : ∀ c ∈ digits, isDigit base c = true) : hexPrefix digits = false := by
  unfold hexPrefix
  split
  next x c _ =>
    have hx := hdigits x (by simp)
    have hne : x ≠ 'x' ∧ x ≠ 'X' := by
      constructor <;> rintro rfl
      · have hvalue : digitValue 'x' = some 33 := by decide
        rw [isDigit, hvalue, Option.any_some, decide_eq_true_eq] at hx
        omega
      · have hvalue : digitValue 'X' = some 33 := by decide
        rw [isDigit, hvalue, Option.any_some, decide_eq_true_eq] at hx
        omega
    simp [hne.1, hne.2]
  next => rfl

/-! ### What `strtol` reads -/

variable {base : ℕ}

/-- The text behind the sign. -/
def Numeral.unsigned (n : Numeral base) : List Char := n.radix.text ++ n.digits

theorem Numeral.unsigned_cons (n : Numeral base) (rest : List Char) :
    ∃ c text, n.unsigned ++ rest = c :: text ∧ (digitValue c).isSome = true := by
  obtain ⟨d, ds, hdigits⟩ := List.exists_cons_of_ne_nil n.nonempty
  have hd := isSome_of_isDigit (n.isDigit_of_mem d (by simp [hdigits]))
  cases hradix : n.radix with
  | plain => exact ⟨d, ds ++ rest, by simp [unsigned, hradix, Radix.text, hdigits], hd⟩
  | hex => exact ⟨'0', 'x' :: n.digits ++ rest, by simp [unsigned, hradix, Radix.text], by decide⟩
  | HEX => exact ⟨'0', 'X' :: n.digits ++ rest, by simp [unsigned, hradix, Radix.text], by decide⟩

theorem Numeral.skipSign_text (n : Numeral base) :
    skipSign (n.text.dropWhile isSpace) = (decide (n.sign = .minus), n.unsigned) := by
  obtain ⟨c, text, hcons, hc⟩ := n.unsigned_cons []
  rw [List.append_nil] at hcons
  obtain ⟨hspace, hskip⟩ := skipSign_of_isSome hc text
  have htext : n.text = n.spaces ++ (n.sign.text ++ n.unsigned) := by
    simp [Numeral.text, unsigned]
  rw [htext, List.dropWhile_append_of_pos n.isSpace_of_mem, hcons]
  cases n.sign with
  | none => simp [Sign.text, hspace, hskip]
  | plus => rfl
  | minus => rfl

theorem Numeral.skipPrefix_unsigned (n : Numeral base) :
    skipPrefix base n.unsigned = (n.radix.base base n.digits, n.digits) := by
  obtain ⟨d, ds, hdigits⟩ := List.exists_cons_of_ne_nil n.nonempty
  have hall := n.isDigit_of_mem
  have hbase := n.radix_of_base
  cases hradix : n.radix with
  | plain =>
    rw [hradix] at hall
    have hplain : ¬ ((base = 0 ∨ base = 16) ∧ hexPrefix n.digits = true) := by
      rintro ⟨hbase, hprefix⟩
      rw [hexPrefix_eq_false ?_ hall] at hprefix
      · cases hprefix
      · rw [Radix.base]
        split_ifs <;> omega
    rw [unsigned, hradix, Radix.text, List.nil_append, skipPrefix, if_neg hplain, Radix.base]
    split_ifs <;> rfl
  | hex | HEX =>
    have hdigit : isDigit 16 d = true := by
      have hd := hall d (by simp [hdigits])
      rwa [hradix] at hd
    have hany : base = 0 ∨ base = 16 := by simpa [hradix] using hbase
    rw [unsigned, hradix, Radix.text, hdigits, skipPrefix, if_pos ⟨hany, by simpa [hexPrefix] using hdigit⟩]
    rfl

theorem Numeral.strtol_text (n : Numeral base) : strtol n.text base = toLong n.value [] := by
  have hall := n.isDigit_of_mem
  rw [strtol, n.skipSign_text]
  simp only [n.skipPrefix_unsigned, List.takeWhile_eq_self_iff.mpr hall,
    List.dropWhile_eq_nil_iff.mpr hall, n.nonempty, if_false, value, decide_eq_true_eq]

theorem skipSign_cases (text : List Char) : ∃ (sign : Sign) (unsigned : List Char),
    sign.text ++ unsigned = text ∧ skipSign text = (decide (sign = .minus), unsigned) := by
  unfold skipSign
  split
  · exact ⟨.minus, _, rfl, rfl⟩
  · exact ⟨.plus, _, rfl, rfl⟩
  · exact ⟨.none, text, rfl, rfl⟩

theorem skipPrefix_cases (base : ℕ) (text : List Char) : ∃ (radix : Radix) (digits : List Char),
    radix.text ++ digits = text ∧ (base = 0 ∨ base = 16 ∨ radix = .plain) ∧
      skipPrefix base text = (radix.base base digits, digits) := by
  by_cases hprefix : (base = 0 ∨ base = 16) ∧ hexPrefix text = true
  · obtain ⟨hbase, hhex⟩ := hprefix
    have hskip : skipPrefix base text = (16, text.drop 2) := if_pos ⟨hbase, hhex⟩
    rw [hskip]
    unfold hexPrefix at hhex
    split at hhex
    next x c digits =>
      rw [Bool.and_eq_true, Bool.or_eq_true, decide_eq_true_eq, decide_eq_true_eq] at hhex
      obtain ⟨rfl | rfl, -⟩ := hhex
      · exact ⟨.hex, c :: digits, rfl, by omega, rfl⟩
      · exact ⟨.HEX, c :: digits, rfl, by omega, rfl⟩
    next => cases hhex
  · refine ⟨.plain, text, rfl, .inr (.inr rfl), ?_⟩
    rw [skipPrefix, if_neg hprefix, Radix.base]
    split_ifs <;> rfl

/-- The first digit tells the base, whatever comes behind the last one. -/
theorem base_takeWhile (radix : Radix) {text : List Char} {p : Char → Bool}
    (hdigits : text.takeWhile p ≠ []) : radix.base base (text.takeWhile p) = radix.base base text := by
  cases text with
  | nil => exact absurd rfl hdigits
  | cons c text =>
    have hc : p c = true := by
      by_contra hc
      exact hdigits (List.takeWhile_cons_of_neg hc)
    rw [List.takeWhile_cons_of_pos hc]
    cases radix <;> rfl

/-- `strtol` reads nothing, or a number at the start of its text. -/
theorem strtol_cases (base : ℕ) (text : List Char) : strtol text base = ⟨0, false, text⟩ ∨
    ∃ (n : Numeral base) (rest : List Char), n.text ++ rest = text ∧
      strtol text base = toLong n.value rest := by
  obtain ⟨sign, unsigned, hsign, hskip⟩ := skipSign_cases (text.dropWhile isSpace)
  obtain ⟨radix, digits, hradix, hbase, hskipped⟩ := skipPrefix_cases base unsigned
  generalize hb : radix.base base digits = b at hskipped
  have hstrtol : strtol text base = if digits.takeWhile (isDigit b) = [] then ⟨0, false, text⟩
      else toLong (if sign = .minus then -(digitsValue b (digits.takeWhile (isDigit b)) : ℤ)
        else digitsValue b (digits.takeWhile (isDigit b))) (digits.dropWhile (isDigit b)) := by
    rw [strtol, hskip]
    simp only [hskipped, decide_eq_true_eq]
  by_cases hempty : digits.takeWhile (isDigit b) = []
  · exact .inl (hstrtol.trans (if_pos hempty))
  · have hbase' : radix.base base (digits.takeWhile (isDigit b)) = b :=
      (base_takeWhile radix hempty).trans hb
    have hall : ∀ c ∈ digits.takeWhile (isDigit b),
        isDigit (radix.base base (digits.takeWhile (isDigit b))) c = true := by
      rw [hbase']
      exact fun _ => List.mem_takeWhile_imp
    refine .inr ⟨⟨text.takeWhile isSpace, sign, radix, digits.takeWhile (isDigit b),
      fun _ => List.mem_takeWhile_imp, hbase, hempty, hall⟩, digits.dropWhile (isDigit b), ?_, ?_⟩
    · rw [Numeral.text, List.append_assoc, List.takeWhile_append_dropWhile, List.append_assoc,
        List.append_assoc, hradix, hsign, List.takeWhile_append_dropWhile]
    · simp only [hstrtol, if_neg hempty, Numeral.value, hbase']

/-- A whole text is a number exactly if `strtol` leaves nothing of it. -/
theorem strtol_rest_eq_nil_iff {text : List Char} (hne : text ≠ []) :
    (strtol text base).rest = [] ↔ ∃ n : Numeral base, n.text = text := by
  constructor
  · intro hrest
    rcases strtol_cases base text with hnone | ⟨n, rest, htext, hvalue⟩
    · rw [hnone] at hrest
      exact absurd hrest hne
    · rw [hvalue, toLong_rest] at hrest
      rw [hrest, List.append_nil] at htext
      exact ⟨n, htext⟩
  · rintro ⟨n, rfl⟩
    rw [n.strtol_text, toLong_rest]

/-! ### Numbers that are written by a program -/

theorem exists_numeral (radix : Radix) {digits : List Char} {value : ℤ}
    (hradix : base = 0 ∨ base = 16 ∨ radix = .plain) (hne : digits ≠ [])
    (hall : ∀ c ∈ digits, isDigit (radix.base base digits) c = true)
    (hvalue : digitsValue (radix.base base digits) digits = value.natAbs) :
    ∃ n : Numeral base, n.text = (if value < 0 then ['-'] else []) ++ (radix.text ++ digits) ∧
      n.value = value := by
  refine ⟨⟨[], if value < 0 then .minus else .none, radix, digits, nofun, hradix, hne, hall⟩, ?_, ?_⟩
  · simp only [Numeral.text, List.nil_append, List.append_assoc]
    split_ifs <;> rfl
  · by_cases hneg : value < 0
    · simp only [Numeral.value, hvalue, hneg, if_true]
      omega
    · simp only [Numeral.value, hvalue, hneg, if_false, reduceCtorEq]
      omega

theorem digitValue_digitChar {d : ℕ} (hd : d < 16) : digitValue d.digitChar = some d := by
  have hall : ∀ d : Fin 16, digitValue (d : ℕ).digitChar = some (d : ℕ) := by decide
  exact hall ⟨d, hd⟩

theorem digitsValue_append (base : ℕ) (digits : List Char) (c : Char) :
    digitsValue base (digits ++ [c]) = digitsValue base digits * base + (digitValue c).getD 0 := by
  rw [digitsValue, List.foldl_append]
  rfl

theorem digitsValue_toDigits {b : ℕ} (hb : 1 < b) (hle : b ≤ 16) (n : ℕ) :
    digitsValue b (Nat.toDigits b n) = n ∧ ∀ c ∈ Nat.toDigits b n, isDigit b c = true := by
  have hdigit : ∀ d < b, isDigit b d.digitChar = true := by
    intro d hd
    rw [isDigit, digitValue_digitChar (hd.trans_le hle)]
    simpa using hd
  induction n using Nat.strong_induction_on with
  | _ n ih =>
    rcases Nat.lt_or_ge n b with hlt | hge
    · rw [Nat.toDigits_of_lt_base hlt]
      refine ⟨?_, by simpa using hdigit n hlt⟩
      simp [digitsValue, digitValue_digitChar (hlt.trans_le hle)]
    · have hmod := Nat.mod_lt n (Nat.zero_lt_of_lt hb)
      obtain ⟨hvalue, hall⟩ := ih (n / b) (Nat.div_lt_self (by omega) hb)
      rw [Nat.toDigits_of_base_le hb hge, digitsValue_append, hvalue,
        digitValue_digitChar (hmod.trans_le hle), Option.getD_some, Nat.div_add_mod']
      refine ⟨rfl, ?_⟩
      rw [List.forall_mem_append, List.forall_mem_singleton]
      exact ⟨hall, hdigit _ hmod⟩

/-- No number is written with a zero in front, apart from zero. -/
theorem head_toDigits {b : ℕ} (hb : 1 < b) {n : ℕ} (hn : n ≠ 0) :
    (Nat.toDigits b n).head? ≠ some '0' := by
  induction n using Nat.strong_induction_on with
  | _ n ih =>
    rcases Nat.lt_or_ge n b with hlt | hge
    · rw [Nat.toDigits_of_lt_base hlt]
      simpa using hn
    · have hdiv : n / b ≠ 0 := (Nat.div_pos hge (Nat.zero_lt_of_lt hb)).ne'
      have hhead := ih (n / b) (Nat.div_lt_self (by omega) hb) hdiv
      rw [Nat.toDigits_of_base_le hb hge, List.head?_append]
      cases hcons : Nat.toDigits b (n / b) with
      | nil => exact absurd hcons Nat.toDigits_ne_nil
      | cons c cs => simpa [hcons] using hhead

end OsProgramming.Library
