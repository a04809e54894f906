import OsProgramming.Servers.Greeting

/-! The buffers in which the error functions of `log.c`, `apue.c` and `error_functions.c` put their
lines together. A message is the text that its format gives. -/

namespace OsProgramming.Io

open Library

open Servers (literal)

def newline : UInt8 := 10

/-- A local buffer. -/
def buffer (fill : ℕ → UInt8) (size : ℕ) : List UInt8 := (List.range size).map fill

/-- The line of `err_doit`, with a buffer of one byte more than its limit. -/
def errDoit (limit : ℕ) (fill : ℕ → UInt8) (errnoflag : Bool) (text strerror : List UInt8) :
    Result (List UInt8) := do
  let buf ← snprintf 0 (buffer fill (limit + 1)) 0 limit text
  let string ← loadString 0 buf
  let buf ← (if errnoflag then
    snprintf 0 buf string.length (limit - string.length) (literal ": " ++ cString 0 strerror)
    else .ok buf)
  let buf ← strcat 0 buf [newline]
  loadString 0 buf

def maxline : ℕ := 4096

/-- `err_doit` of `log.c`. -/
def logErrDoit : (ℕ → UInt8) → Bool → List UInt8 → List UInt8 → Result (List UInt8) := errDoit maxline

/-- `err_doit` of `apue.c`. -/
def apueErrDoit : (ℕ → UInt8) → Bool → List UInt8 → List UInt8 → Result (List UInt8) :=
  errDoit (maxline - 1)

def severityStr (severity : ℤ) : List UInt8 :=
  if severity = 0 then literal "debug"
  else if severity = 1 then literal "msg"
  else if severity = 2 then literal "warn"
  else if severity = 3 then literal "err"
  else literal "???"

def yolandaLog (severity : ℤ) (msg : List UInt8) : List UInt8 :=
  literal "[" ++ severityStr severity ++ literal "] " ++ msg ++ [newline]

def yolandaLogx (fill : ℕ → UInt8) (severity : ℤ) (errstr text : Option (List UInt8)) :
    Result (List UInt8) := do
  let buf := buffer fill 1024
  let buf ← (match text with
    | some text => snprintf 0 buf 0 1024 text
    | none => store buf 0 [0])
  let buf ← (match errstr with
    | some errstr => do
      let string ← loadString 0 buf
      if string.length < 1024 - 3 then
        snprintf 0 buf string.length (1024 - string.length) (literal ": " ++ cString 0 errstr)
      else .ok buf
    | none => .ok buf)
  let msg ← loadString 0 buf
  .ok (yolandaLog severity msg)

def bufSize : ℕ := 500

/-- The description of an error. `ename` is its name, or `?UNKNOWN?`. -/
def errorText (useErr : Bool) (ename strerror : List UInt8) : List UInt8 :=
  if useErr then
    literal " [" ++ cString 0 ename ++ literal " " ++ cString 0 strerror ++ literal "]"
  else literal ":"

def outputError (fill : ℕ → UInt8) (useErr : Bool) (ename strerror text : List UInt8) :
    Result (List UInt8) := do
  let userMsg ← snprintf 0 (buffer fill bufSize) 0 bufSize text
  let errText ← snprintf 0 (buffer fill bufSize) 0 bufSize (errorText useErr ename strerror)
  let errText ← loadString 0 errText
  let userMsg ← loadString 0 userMsg
  let buf ← snprintf 0 (buffer fill bufSize) 0 bufSize
    (literal "ERROR" ++ errText ++ literal " " ++ userMsg ++ [newline])
  loadString 0 buf

/-! ### What is printed -/

theorem length_buffer (fill : ℕ → UInt8) (size : ℕ) : (buffer fill size).length = size := by
  simp [buffer]

/-- The first text in a local buffer. -/
theorem snprintf_buffer (fill : ℕ → UInt8) {size room : ℕ} (hpos : 0 < room) (hroom : room ≤ size)
    (text : List UInt8) :
    ∃ block, snprintf 0 (buffer fill size) 0 room text = .ok block ∧
      HoldsString 0 size ((cString 0 text).take (room - 1)) block := by
  have hwritten : ∃ block, snprintf 0 (buffer fill size) 0 room text = .ok block ∧
      HoldsString 0 (buffer fill size).length
        ((buffer fill size).take 0 ++ (cString 0 text).take (room - 1)) block :=
    snprintf_holds (by simp) hpos (by rwa [Nat.zero_add, length_buffer]) text
  rwa [List.take_zero, List.nil_append, length_buffer] at hwritten

/-- What is printed behind a colon. -/
theorem cString_colon (text : List UInt8) :
    cString 0 (literal ": " ++ cString 0 text) = literal ": " ++ cString 0 text := by
  rw [cString_plain_append (by decide), cString_eq_self (not_mem_cString 0 text)]

/-- What is cut off behind the end does not count. -/
theorem take_append_take_append (before xs after : List UInt8) (k : ℕ) :
    (before ++ xs.take k ++ after).take k = (before ++ xs ++ after).take k := by
  have hsplit : ∀ ys, (before ++ ys).take k = before.take k ++ ys.take (k - before.length) := fun ys =>
    List.take_append
  rw [List.append_assoc, List.append_assoc, hsplit, hsplit, List.append_right_inj]
  rcases Nat.lt_or_ge k xs.length with hlt | hge
  · rw [List.take_append_of_le_length (by rw [List.length_take]; omega), List.take_take,
      min_eq_left (Nat.sub_le _ _), List.take_append_of_le_length (by omega)]
  · rw [List.take_of_length_le hge]

theorem errDoit_eq {limit : ℕ} (hlimit : 0 < limit) (fill : ℕ → UInt8) (errnoflag : Bool)
    (text strerror : List UInt8) :
    errDoit limit fill errnoflag text strerror =
      .ok ((cString 0 text ++ if errnoflag then literal ": " ++ cString 0 strerror else []).take
        (limit - 1) ++ [newline]) := by
  obtain ⟨buf, hbuf, hholds⟩ := snprintf_buffer fill hlimit (Nat.le_succ limit) text
  have hlength : ((cString 0 text).take (limit - 1)).length ≤ limit - 1 := List.length_take_le _ _
  have hroom : (limit - ((cString 0 text).take (limit - 1)).length) - 1 =
      limit - 1 - (cString 0 text).length := by
    rw [List.length_take]
    omega
  rw [errDoit, hbuf, ok_bind, hholds.loadString, ok_bind]
  have hsecond : ∃ buf', (if errnoflag then
      snprintf 0 buf ((cString 0 text).take (limit - 1)).length
        (limit - ((cString 0 text).take (limit - 1)).length) (literal ": " ++ cString 0 strerror)
      else .ok buf) = .ok buf' ∧ HoldsString 0 (limit + 1)
        ((cString 0 text ++ if errnoflag then literal ": " ++ cString 0 strerror else []).take
          (limit - 1)) buf' := by
    cases errnoflag with
    | false => exact ⟨buf, rfl, by simpa using hholds⟩
    | true =>
      obtain ⟨buf', hbuf', hholds'⟩ := hholds.snprintf
        (by omega : 0 < limit - ((cString 0 text).take (limit - 1)).length) (by omega)
        (literal ": " ++ cString 0 strerror)
      rw [cString_colon, hroom, ← List.take_append] at hholds'
      exact ⟨buf', hbuf', hholds'⟩
  obtain ⟨buf', hbuf', hholds'⟩ := hsecond
  have hnewline : cString 0 [newline] = [newline] := rfl
  obtain ⟨buf'', hbuf'', hholds''⟩ := hholds'.strcat
    (show _ + (cString 0 [newline]).length < limit + 1 by
      have := List.length_take_le (limit - 1)
        (cString 0 text ++ if errnoflag then literal ": " ++ cString 0 strerror else [])
      simp only [hnewline, List.length_singleton]
      omega)
  rw [hbuf', ok_bind, hbuf'', ok_bind, hholds''.loadString, hnewline]

theorem not_mem_errorText (useErr : Bool) (ename strerror : List UInt8) :
    0 ∉ errorText useErr ename strerror := by
  rw [errorText]
  cases useErr with
  | false =>
    show 0 ∉ literal ":"
    decide
  | true =>
    have hname := not_mem_cString 0 ename
    have herror := not_mem_cString 0 strerror
    have hopen : 0 ∉ literal " [" := by decide
    have hspace : 0 ∉ literal " " := by decide
    have hclose : 0 ∉ literal "]" := by decide
    simp [hname, herror, hopen, hspace, hclose]

theorem outputError_eq (fill : ℕ → UInt8) (useErr : Bool) (ename strerror text : List UInt8) :
    outputError fill useErr ename strerror text =
      .ok ((literal "ERROR" ++ errorText useErr ename strerror ++ literal " " ++ cString 0 text ++
        [newline]).take (bufSize - 1)) := by
  obtain ⟨userMsg, huserMsg, hholds⟩ := snprintf_buffer fill (by decide : 0 < bufSize) le_rfl text
  obtain ⟨errText, herrText, hholds'⟩ :=
    snprintf_buffer fill (by decide : 0 < bufSize) le_rfl (errorText useErr ename strerror)
  rw [cString_eq_self (not_mem_errorText useErr ename strerror)] at hholds'
  obtain ⟨buf, hbuf, hholds''⟩ := snprintf_buffer fill (by decide : 0 < bufSize) le_rfl
    (literal "ERROR" ++ (errorText useErr ename strerror).take (bufSize - 1) ++ literal " " ++
      (cString 0 text).take (bufSize - 1) ++ [newline])
  rw [outputError, huserMsg, ok_bind, herrText, ok_bind, hholds'.loadString, ok_bind, hholds.loadString,
    ok_bind, hbuf, ok_bind, hholds''.loadString]
  have hplain : 0 ∉ literal "ERROR" ++ (errorText useErr ename strerror).take (bufSize - 1) ++
      literal " " ++ (cString 0 text).take (bufSize - 1) ++ [newline] := by
    have herror : 0 ∉ (errorText useErr ename strerror).take (bufSize - 1) := fun hmem =>
      not_mem_errorText useErr ename strerror (List.mem_of_mem_take hmem)
    have huser : 0 ∉ (cString 0 text).take (bufSize - 1) := fun hmem =>
      not_mem_cString 0 text (List.mem_of_mem_take hmem)
    have hlabel : 0 ∉ literal "ERROR" := by decide
    have hspace : 0 ∉ literal " " := by decide
    have hnewline : 0 ≠ newline := by decide
    simp [herror, huser, hlabel, hspace, hnewline]
  rw [cString_eq_self hplain, take_append_take_append, List.append_assoc (literal "ERROR" ++ _) _ _,
    List.append_assoc (literal "ERROR" ++ _) _ _, take_append_take_append]
  simp only [List.append_assoc]

/-- A text that is absent is empty. -/
def formatted (text : Option (List UInt8)) : List UInt8 := (text.map (cString 0)).getD []

/-- The error that `yolanda_logx` adds, if the text leaves more than two bytes for it. -/
def loggedError (errstr : Option (List UInt8)) (length : ℕ) : List UInt8 :=
  match errstr with
  | some errstr => if length < 1024 - 3 then literal ": " ++ cString 0 errstr else []
  | none => []

theorem yolandaLogx_eq (fill : ℕ → UInt8) (severity : ℤ) (errstr text : Option (List UInt8)) :
    yolandaLogx fill severity errstr text = .ok (yolandaLog severity
      ((formatted text ++ loggedError errstr (formatted text).length).take (1024 - 1))) := by
  have hfirst : ∃ buf, (match text with
      | some text => snprintf 0 (buffer fill 1024) 0 1024 text
      | none => store (buffer fill 1024) 0 [0]) = .ok buf ∧
        HoldsString 0 1024 ((formatted text).take (1024 - 1)) buf := by
    cases text with
    | some text => exact snprintf_buffer fill (by decide) le_rfl text
    | none =>
      have hwritten : ∃ block, store (buffer fill 1024) (0 : ℕ) ([] ++ [0]) = .ok block ∧
          HoldsString 0 (buffer fill 1024).length ((buffer fill 1024).take 0 ++ cString 0 []) block :=
        store_string (by simp) (by simp [length_buffer])
      rwa [length_buffer] at hwritten
  obtain ⟨buf, hbuf, hholds⟩ := hfirst
  generalize formatted text = string at hholds ⊢
  have hsecond : ∃ buf', (match errstr with
      | some errstr => do
        let string ← loadString 0 buf
        if string.length < 1024 - 3 then
          snprintf 0 buf string.length (1024 - string.length) (literal ": " ++ cString 0 errstr)
        else .ok buf
      | none => .ok buf) = .ok buf' ∧
        HoldsString 0 1024 ((string ++ loggedError errstr string.length).take (1024 - 1)) buf' := by
    cases errstr with
    | none => exact ⟨buf, rfl, by simpa [loggedError] using hholds⟩
    | some errstr =>
      have hlength : (string.take (1024 - 1)).length = min (1024 - 1) string.length := List.length_take
      dsimp only
      rw [hholds.loadString, ok_bind, loggedError, hlength]
      by_cases hroom : string.length < 1024 - 3
      · have htake : string.take (1024 - 1) = string := List.take_of_length_le (by omega)
        rw [htake] at hholds
        obtain ⟨buf', hbuf', hholds'⟩ := hholds.snprintf (by omega : 0 < 1024 - string.length) (by omega)
          (literal ": " ++ cString 0 errstr)
        rw [cString_colon] at hholds'
        have hmin : min (1024 - 1) string.length = string.length := by omega
        have hrest : 1024 - string.length - 1 = 1024 - 1 - string.length := by omega
        refine ⟨buf', ?_, ?_⟩
        · rw [hmin, if_pos hroom]
          exact hbuf'
        · rw [if_pos hroom, List.take_append, htake, ← hrest]
          exact hholds'
      · exact ⟨buf, if_neg (by omega), by simpa [hroom] using hholds⟩
  obtain ⟨buf', hbuf', hholds'⟩ := hsecond
  rw [yolandaLogx.eq_def]
  dsimp only
  rw [hbuf, ok_bind, hbuf', ok_bind, hholds'.loadString, ok_bind]

/-- The line of an error with its description, or without one. -/
def described (errnoflag : Bool) (text strerror : List UInt8) : List UInt8 :=
  cString 0 text ++ if errnoflag then literal ": " ++ cString 0 strerror else []

/-- The line of `outputError`, if it is not cut off. -/
def errorLine (useErr : Bool) (ename strerror text : List UInt8) : List UInt8 :=
  literal "ERROR" ++ errorText useErr ename strerror ++ literal " " ++ cString 0 text ++ [newline]

/-- However long the texts are, the error functions stay within their buffers. The two `err_doit`
cut off what does not fit, but never the end of the line; `outputError` prints a line without its
end exactly when it has 500 bytes or more; and `yolanda_logx` leaves out the error, as a whole, when
the text has more than 1020 bytes. -/
theorem error_text (fill : ℕ → UInt8) (flag : Bool) (ename strerror text : List UInt8)
    (severity : ℤ) (errstr format : Option (List UInt8)) :
    logErrDoit fill flag text strerror =
      .ok ((described flag text strerror).take (maxline - 1) ++ [newline]) ∧
    apueErrDoit fill flag text strerror =
      .ok ((described flag text strerror).take (maxline - 2) ++ [newline]) ∧
    outputError fill flag ename strerror text =
      .ok ((errorLine flag ename strerror text).take (bufSize - 1)) ∧
    (outputError fill flag ename strerror text = .ok (errorLine flag ename strerror text) ↔
      (errorLine flag ename strerror text).length < bufSize) ∧
    yolandaLogx fill severity errstr format = .ok (yolandaLog severity
      ((formatted format ++ loggedError errstr (formatted format).length).take (1024 - 1))) := by
  have hline : outputError fill flag ename strerror text =
      .ok ((errorLine flag ename strerror text).take (bufSize - 1)) :=
    outputError_eq fill flag ename strerror text
  refine ⟨errDoit_eq (by decide) fill flag text strerror, errDoit_eq (by decide) fill flag text strerror,
    hline, ?_, yolandaLogx_eq fill severity errstr format⟩
  rw [hline, Except.ok.injEq, List.take_eq_self_iff]
  exact Nat.le_sub_one_iff_lt (by decide)

end OsProgramming.Io
