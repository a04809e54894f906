import OsProgramming.Library.Numeral

/-! `get_num.c`: numbers on a command line. An argument that is not one ends the process, with a
text that says why. -/

namespace OsProgramming.Tlpi

open Library

def gnNonneg : ℕ := 0o1

def gnGt0 : ℕ := 0o2

def gnAnyBase : ℕ := 0o100

def gnBase8 : ℕ := 0o200

def gnBase16 : ℕ := 0o400

/-- What the process writes before it ends. -/
def gnFail (fname msg : String) (arg name : Option (List Char)) : List Char :=
  fname.toList ++ " error".toList ++
    (match name with
      | some name => " (in ".toList ++ name ++ ")".toList
      | none => []) ++
    ": ".toList ++ msg.toList ++ "\n".toList ++
    match arg with
    | some (c :: arg) => "        offending text: ".toList ++ c :: arg ++ "\n".toList
    | _ => []

/-- The base of an argument; it is 0 if a number may be written in any. -/
def gnBase (flags : ℕ) : ℕ :=
  if flags &&& gnAnyBase ≠ 0 then 0
  else if flags &&& gnBase8 ≠ 0 then 8
  else if flags &&& gnBase16 ≠ 0 then 16
  else 10

def getNum (fname : String) (arg : Option (List Char)) (flags : ℕ) (name : Option (List Char)) :
    Except (List Char) ℤ :=
  match arg with
  | none | some [] => .error (gnFail fname "null or empty string" arg name)
  | some text =>
    let res := strtol text (gnBase flags)
    if res.outOfRange then .error (gnFail fname "strtol() failed" arg name)
    else if res.rest ≠ [] then .error (gnFail fname "nonnumeric characters" arg name)
    else if flags &&& gnNonneg ≠ 0 ∧ res.value < 0 then
      .error (gnFail fname "negative value not allowed" arg name)
    else if flags &&& gnGt0 ≠ 0 ∧ res.value ≤ 0 then
      .error (gnFail fname "value must be > 0" arg name)
    else .ok res.value

def getLong (arg : Option (List Char)) (flags : ℕ) (name : Option (List Char)) :
    Except (List Char) ℤ :=
  getNum "getLong" arg flags name

def getInt (arg : Option (List Char)) (flags : ℕ) (name : Option (List Char)) :
    Except (List Char) ℤ := do
  let res ← getNum "getInt" arg flags name
  if intMax < res ∨ res < -intMax - 1 then
    .error (gnFail "getInt" "integer out of range" arg name)
  else .ok res

/-! ### What is accepted -/

/-- A value that the flags allow. -/
def Allowed (flags : ℕ) (value : ℤ) : Prop :=
  (flags &&& gnNonneg ≠ 0 → 0 ≤ value) ∧ (flags &&& gnGt0 ≠ 0 → 0 < value)

/-- The reasons for which an argument is refused. -/
inductive Refused (flags : ℕ) : Option (List Char) → String → Prop where
  | missing {arg : Option (List Char)} : arg = none ∨ arg = some [] →
    Refused flags arg "null or empty string"
  /-- whatever comes behind the number -/
  | outOfRange (n : Numeral (gnBase flags)) (rest : List Char) :
    n.value < longMin ∨ longMax < n.value → Refused flags (some (n.text ++ rest)) "strtol() failed"
  | nonnumeric {text : List Char} : text ≠ [] → (∀ n : Numeral (gnBase flags), n.text ≠ text) →
    Refused flags (some text) "nonnumeric characters"
  | negative (n : Numeral (gnBase flags)) : flags &&& gnNonneg ≠ 0 → n.value < 0 →
    Refused flags (some n.text) "negative value not allowed"
  | nonpositive (n : Numeral (gnBase flags)) : flags &&& gnGt0 ≠ 0 → n.value ≤ 0 →
    Refused flags (some n.text) "value must be > 0"

variable {fname : String} {arg : Option (List Char)} {flags : ℕ} {name : Option (List Char)}
  {text output : List Char} {value : ℤ}

theorem getNum_eq (fname : String) (hne : text ≠ []) (flags : ℕ) (name : Option (List Char)) :
    getNum fname (some text) flags name =
      if (strtol text (gnBase flags)).outOfRange then
        .error (gnFail fname "strtol() failed" (some text) name)
      else if (strtol text (gnBase flags)).rest ≠ [] then
        .error (gnFail fname "nonnumeric characters" (some text) name)
      else if flags &&& gnNonneg ≠ 0 ∧ (strtol text (gnBase flags)).value < 0 then
        .error (gnFail fname "negative value not allowed" (some text) name)
      else if flags &&& gnGt0 ≠ 0 ∧ (strtol text (gnBase flags)).value ≤ 0 then
        .error (gnFail fname "value must be > 0" (some text) name)
      else .ok (strtol text (gnBase flags)).value := by
  cases text with
  | nil => exact absurd rfl hne
  | cons c text => rfl

/-- An argument that is a number in the range of the type. -/
theorem getNum_numeral (fname : String) (n : Numeral (gnBase flags)) (name : Option (List Char))
    (hlow : longMin ≤ n.value) (hhigh : n.value ≤ longMax) (hallowed : Allowed flags n.value) :
    getNum fname (some n.text) flags name = .ok n.value := by
  have hne : n.text ≠ [] := by
    simp [Numeral.text, n.nonempty]
  have hnonneg : ¬ (flags &&& gnNonneg ≠ 0 ∧ n.value < 0) := by
    rintro ⟨hflag, hneg⟩
    exact absurd (hallowed.1 hflag) hneg.not_ge
  have hpositive : ¬ (flags &&& gnGt0 ≠ 0 ∧ n.value ≤ 0) := by
    rintro ⟨hflag, hle⟩
    exact absurd (hallowed.2 hflag) hle.not_gt
  rw [getNum_eq fname hne, n.strtol_text, toLong_of_le _ hlow hhigh]
  simp only [Bool.false_eq_true, if_false, ne_eq, not_true, hnonneg, hpositive]

theorem getNum_ok (hok : getNum fname (some text) flags name = .ok value) :
    ∃ n : Numeral (gnBase flags), n.text = text ∧ n.value = value ∧ longMin ≤ value ∧
      value ≤ longMax ∧ Allowed flags value := by
  have hne : text ≠ [] := by
    rintro rfl
    cases hok
  rw [getNum_eq fname hne] at hok
  split_ifs at hok with hrange hrest hnonneg hpositive
  rw [not_not] at hrest
  obtain ⟨n, rfl⟩ := (strtol_rest_eq_nil_iff hne).mp hrest
  rw [n.strtol_text] at hrange hnonneg hpositive hok
  obtain ⟨heq, hlow, hhigh⟩ := toLong_eq (Bool.not_eq_true _ ▸ hrange)
  rw [heq] at hnonneg hpositive hok
  cases hok
  exact ⟨n, rfl, rfl, hlow, hhigh, fun hflag => not_lt.mp fun hneg => hnonneg ⟨hflag, hneg⟩,
    fun hflag => not_le.mp fun hle => hpositive ⟨hflag, hle⟩⟩

/-- A process that ends says what is wrong with its argument. -/
theorem getNum_error (herror : getNum fname arg flags name = .error output) :
    ∃ msg, output = gnFail fname msg arg name ∧ Refused flags arg msg := by
  cases arg with
  | none =>
    cases herror
    exact ⟨_, rfl, .missing (.inl rfl)⟩
  | some text =>
    by_cases hne : text = []
    · subst hne
      cases herror
      exact ⟨_, rfl, .missing (.inr rfl)⟩
    · rw [getNum_eq fname hne] at herror
      by_cases hrest : (strtol text (gnBase flags)).rest = []
      · obtain ⟨n, rfl⟩ := (strtol_rest_eq_nil_iff hne).mp hrest
        rw [n.strtol_text] at herror
        split_ifs at herror with hrange hnil hnonneg hpositive <;> cases herror
        · exact ⟨_, rfl, by simpa using Refused.outOfRange n [] ((toLong_outOfRange []).mp hrange)⟩
        · exact absurd (toLong_rest _ _) hnil
        · rw [(toLong_eq (Bool.not_eq_true _ ▸ hrange)).1] at hnonneg
          exact ⟨_, rfl, .negative n hnonneg.1 hnonneg.2⟩
        · rw [(toLong_eq (Bool.not_eq_true _ ▸ hrange)).1] at hpositive
          exact ⟨_, rfl, .nonpositive n hpositive.1 hpositive.2⟩
      · split_ifs at herror with hrange <;> cases herror
        · rcases strtol_cases (gnBase flags) text with hnone | ⟨n, rest, rfl, hvalue⟩
          · rw [hnone] at hrange
            cases hrange
          · rw [hvalue] at hrange
            exact ⟨_, rfl, .outOfRange n rest ((toLong_outOfRange rest).mp hrange)⟩
        · refine ⟨_, rfl, .nonnumeric hne fun n htext => hrest ?_⟩
          exact (strtol_rest_eq_nil_iff hne).mpr ⟨n, htext⟩

/-- A number that the flags allow, in one of the bases that they allow. -/
def Accepted (flags : ℕ) (text : List Char) (value : ℤ) : Prop :=
  ∃ n : Numeral (gnBase flags), n.text = text ∧ n.value = value ∧ longMin ≤ value ∧
    value ≤ longMax ∧ Allowed flags value

theorem getNum_ok_iff (fname : String) (name : Option (List Char)) :
    getNum fname arg flags name = .ok value ↔ ∃ text, arg = some text ∧ Accepted flags text value := by
  constructor
  · intro hok
    cases arg with
    | none => cases hok
    | some text => exact ⟨text, rfl, getNum_ok hok⟩
  · rintro ⟨text, rfl, n, rfl, rfl, hlow, hhigh, hallowed⟩
    exact getNum_numeral fname n name hlow hhigh hallowed

theorem getInt_ok_iff (name : Option (List Char)) : getInt arg flags name = .ok value ↔
    (∃ text, arg = some text ∧ Accepted flags text value) ∧ -intMax - 1 ≤ value ∧ value ≤ intMax := by
  rw [← getNum_ok_iff "getInt" name, getInt]
  cases hres : getNum "getInt" arg flags name with
  | error output => exact iff_of_false nofun nofun
  | ok res =>
    have hbind : (Except.ok res >>= fun res => if intMax < res ∨ res < -intMax - 1 then
        .error (gnFail "getInt" "integer out of range" arg name) else .ok res) =
      if intMax < res ∨ res < -intMax - 1 then
        .error (gnFail "getInt" "integer out of range" arg name) else .ok res := rfl
    rw [hbind, Except.ok.injEq]
    split_ifs with hrange
    · refine iff_of_false nofun ?_
      rintro ⟨rfl, hlow, hhigh⟩
      omega
    · rw [Except.ok.injEq]
      refine ⟨fun heq => ⟨heq, ?_⟩, And.left⟩
      omega

/-- Exactly the numbers in the range of the type that the flags allow are accepted, with their
values, and a process that ends says what is wrong with its argument. -/
theorem get_num (arg : Option (List Char)) (flags : ℕ) (name : Option (List Char)) :
    (∀ value, getLong arg flags name = .ok value ↔
      ∃ text, arg = some text ∧ Accepted flags text value) ∧
      (∀ output, getLong arg flags name = .error output →
        ∃ msg, output = gnFail "getLong" msg arg name ∧ Refused flags arg msg) ∧
      (∀ value, getInt arg flags name = .ok value ↔
        (∃ text, arg = some text ∧ Accepted flags text value) ∧ -intMax - 1 ≤ value ∧ value ≤ intMax) ∧
      ∀ output, getInt arg flags name = .error output → ∃ msg, output = gnFail "getInt" msg arg name ∧
        (Refused flags arg msg ∨ msg = "integer out of range" ∧ ∃ text value, arg = some text ∧
          Accepted flags text value ∧ (intMax < value ∨ value < -intMax - 1)) := by
  refine ⟨fun value => getNum_ok_iff _ _, fun output => getNum_error, fun value => getInt_ok_iff name,
    fun output herror => ?_⟩
  rw [getInt] at herror
  cases hres : getNum "getInt" arg flags name with
  | error output' =>
    rw [hres] at herror
    cases herror
    obtain ⟨msg, hmsg, hrefused⟩ := getNum_error hres
    exact ⟨msg, hmsg, .inl hrefused⟩
  | ok res =>
    obtain ⟨text, htext, haccepted⟩ := (getNum_ok_iff "getInt" name).mp hres
    rw [hres] at herror
    have hbind : (if intMax < res ∨ res < -intMax - 1 then
        Except.error (gnFail "getInt" "integer out of range" arg name) else .ok res) =
          Except.error output := herror
    split_ifs at hbind with hrange
    cases hbind
    exact ⟨_, rfl, .inr ⟨rfl, text, res, htext, haccepted, hrange⟩⟩

/-! ### Numbers that another program has written -/

/-- The digits of a value, behind its sign and what tells the base. -/
def rendering (b : ℕ) (before : List Char) (value : ℤ) : List Char :=
  (if value < 0 then ['-'] else []) ++ (before ++ Nat.toDigits b value.natAbs)

/-- The bases that the flags allow, and what tells them. -/
inductive Writes (flags : ℕ) : ℕ → List Char → Prop where
  | base : gnBase flags ≠ 0 → Writes flags (gnBase flags) []
  | decimal : gnBase flags = 0 → Writes flags 10 []
  | octal : gnBase flags = 0 → Writes flags 8 ['0']
  | hex : gnBase flags = 0 ∨ gnBase flags = 16 → Writes flags 16 ['0', 'x']

theorem gnBase_cases (flags : ℕ) :
    gnBase flags = 0 ∨ gnBase flags = 8 ∨ gnBase flags = 16 ∨ gnBase flags = 10 := by
  rw [gnBase]
  split_ifs <;> simp

theorem Writes.numeral {b : ℕ} {before : List Char} (h : Writes flags b before) (value : ℤ) :
    ∃ n : Numeral (gnBase flags), n.text = rendering b before value ∧ n.value = value := by
  cases h with
  | base hbase =>
    obtain ⟨hvalue, hall⟩ := digitsValue_toDigits (b := gnBase flags)
      (by have := gnBase_cases flags; omega) (by have := gnBase_cases flags; omega) value.natAbs
    have hradix : ∀ digits, Radix.plain.base (gnBase flags) digits = gnBase flags :=
      fun _ => if_neg hbase
    exact exists_numeral .plain (by simp) Nat.toDigits_ne_nil (by rwa [hradix]) (by rwa [hradix])
  | decimal hbase =>
    obtain ⟨hvalue, hall⟩ := digitsValue_toDigits (b := 10) (by decide) (by decide) value.natAbs
    by_cases hzero : value.natAbs = 0
    · -- zero alone is in base 8, like everything behind a zero
      have hradix : Radix.plain.base (gnBase flags) ['0'] = 8 := by rw [hbase]; rfl
      rw [rendering, hzero, Nat.toDigits_zero]
      exact exists_numeral .plain (by simp) (by decide)
        (by rw [hradix]; exact List.all_eq_true.mp (by decide))
        (by rw [hradix, hzero]; decide)
    · have hradix : Radix.plain.base (gnBase flags) (Nat.toDigits 10 value.natAbs) = 10 := by
        rw [hbase, Radix.base, if_pos rfl, if_neg (head_toDigits (by decide) hzero)]
      exact exists_numeral .plain (by simp) Nat.toDigits_ne_nil (by rwa [hradix]) (by rwa [hradix])
  | octal hbase =>
    obtain ⟨hvalue, hall⟩ := digitsValue_toDigits (b := 8) (by decide) (by decide) value.natAbs
    have hradix : Radix.plain.base (gnBase flags) ('0' :: Nat.toDigits 8 value.natAbs) = 8 := by
      rw [hbase]
      rfl
    have hzero : digitsValue 8 ('0' :: Nat.toDigits 8 value.natAbs) =
        digitsValue 8 (Nat.toDigits 8 value.natAbs) := rfl
    have hall' : ∀ c ∈ '0' :: Nat.toDigits 8 value.natAbs, isDigit 8 c = true :=
      List.forall_mem_cons.mpr ⟨by decide, hall⟩
    have hnumeral : ∃ n : Numeral (gnBase flags), n.text = (if value < 0 then ['-'] else []) ++
        (Radix.plain.text ++ '0' :: Nat.toDigits 8 value.natAbs) ∧ n.value = value :=
      exists_numeral .plain (by simp) (List.cons_ne_nil _ _) (by rwa [hradix])
        (by rw [hradix, hzero, hvalue])
    exact hnumeral
  | hex hbase =>
    obtain ⟨hvalue, hall⟩ := digitsValue_toDigits (b := 16) (by decide) le_rfl value.natAbs
    exact exists_numeral .hex (by omega) Nat.toDigits_ne_nil hall hvalue

/-- A value that has been written in a base that the flags allow is read again. -/
theorem get_num_rendering {b : ℕ} {before : List Char} (hwrites : Writes flags b before)
    (hallowed : Allowed flags value) (name : Option (List Char)) :
    (longMin ≤ value → value ≤ longMax →
      getLong (some (rendering b before value)) flags name = .ok value) ∧
      (-intMax - 1 ≤ value → value ≤ intMax →
        getInt (some (rendering b before value)) flags name = .ok value) := by
  obtain ⟨n, htext, hvalue⟩ := hwrites.numeral value
  constructor
  · intro hlow hhigh
    exact (getNum_ok_iff "getLong" name).mpr ⟨_, rfl, n, htext, hvalue, hlow, hhigh, hallowed⟩
  · intro hlow hhigh
    have hrange : longMin ≤ value ∧ value ≤ longMax := by
      simp only [intMax, longMin, longMax] at *
      omega
    exact (getInt_ok_iff name).mpr ⟨⟨_, rfl, n, htext, hvalue, hrange.1, hrange.2, hallowed⟩, hlow, hhigh⟩

/-- A negative number in base 8, where any base is allowed. -/
theorem get_num_rendering_octal : rendering 8 ['0'] (-15) = ['-', '0', '1', '7'] ∧
    getLong (some (rendering 8 ['0'] (-15))) gnAnyBase none = .ok (-15) := by
  have hallowed : Allowed gnAnyBase (-15) :=
    ⟨fun h => absurd h (by decide), fun h => absurd h (by decide)⟩
  have hwrites : Writes gnAnyBase 8 ['0'] := .octal (by decide)
  exact ⟨by decide, (get_num_rendering hwrites hallowed none).1 (by decide) (by decide)⟩

end OsProgramming.Tlpi
