import OsProgramming.Library.Records
import OsProgramming.Stream.Line

/-! `readLine` of `read_line.c`, which reads a line byte by byte and drops what does not fit. -/

namespace OsProgramming.Tlpi

open Library Reactor OsProgramming.Stream

def einvalErrno : Errno := .other 22

/-- A byte that has been read, if there is room for it and the null byte. -/
def placeByte (n : ℕ) (buffer : List Byte) (totRead : ℕ) (ch : Byte) : Result (List Byte × ℕ) :=
  if totRead < n - 1 then do
    let buffer ← store buffer totRead [ch]
    .ok (buffer, totRead + 1)
  else .ok (buffer, totRead)

/-- The line of which `totRead` bytes are in the buffer, as a string. -/
def endLine (stream : List ReadAnswer) (buffer : List Byte) (totRead : ℕ) :
    Result (Except Errno ℕ × List ReadAnswer × List Byte) := do
  let buffer ← store buffer totRead [0]
  .ok (.ok totRead, stream, buffer)

/-- The bytes in the buffer, or -1 and its `errno`. No buffer has more bytes than `ssize_t` can
count. -/
def readLineLoop (n : ℕ) (stream : List ReadAnswer) (buffer : List Byte) (totRead : ℕ) :
    Result (Except Errno ℕ × List ReadAnswer × List Byte) :=
  match _h : read 1 stream with
  | (.failed errno, stream') =>
    if errno = .eintr then readLineLoop n stream' buffer totRead
    else .ok (.error errno, stream', buffer)
  | (.offered [], stream') =>
    if totRead = 0 then .ok (.ok 0, stream', buffer) else endLine stream' buffer totRead
  | (.offered (ch :: _), stream') =>
    placeByte n buffer totRead ch >>= fun (buffer, totRead) =>
      if ch = newline then endLine stream' buffer totRead
      else readLineLoop n stream' buffer totRead
termination_by answers stream
decreasing_by
  · exact answers_failed _h
  · exact answers_offered _h

def readLine (stream : List ReadAnswer) (buffer : Option (List Byte)) (n : ℕ) :
    Result (Except Errno ℕ × List ReadAnswer × Option (List Byte)) :=
  match buffer with
  | none => .ok (.error einvalErrno, stream, none)
  | some buffer =>
    if n = 0 then .ok (.error einvalErrno, stream, some buffer)
    else do
      let (result, stream, buffer) ← readLineLoop n stream buffer 0
      .ok (result, stream, some buffer)

/-- The strings that call after call gives, up to the one that returns 0 or -1. -/
inductive LineCalls (n : ℕ) :
    List ReadAnswer → List Byte → List (List Byte) → Option Errno → Prop where
  | stop {stream stream' : List ReadAnswer} {buffer : List Byte} {buffer' : Option (List Byte)}
      (hcall : readLine stream (some buffer) n = .ok (.ok 0, stream', buffer')) :
      LineCalls n stream buffer [] none
  | failed {stream stream' : List ReadAnswer} {buffer : List Byte} {buffer' : Option (List Byte)}
      {errno : Errno} (hcall : readLine stream (some buffer) n = .ok (.error errno, stream', buffer')) :
      LineCalls n stream buffer [] (some errno)
  | line {stream stream' : List ReadAnswer} {buffer buffer' : List Byte} {count : ℕ}
      {lines : List (List Byte)} {last : Option Errno}
      (hcall : readLine stream (some buffer) n = .ok (.ok count, stream', some buffer'))
      (hcount : count ≠ 0) (hlines : LineCalls n stream' buffer' lines last) :
      LineCalls n stream buffer (buffer'.take (count + 1) :: lines) last

/-! ### The lines of a stream -/

/-- The lines of a stream of which `record` has been read, and the error that it ends with. At an
end of the file, what has been read is a line. -/
def linesOf (record : List Byte) : List ReadAnswer → List (List Byte) × Option Errno
  | [] => (if record = [] then [] else [record], none)
  | .failed errno :: stream =>
    if errno = .eintr then linesOf record stream else ([], some errno)
  | .offered bytes :: stream =>
    if bytes = [] then
      if record = [] then ([], none)
      else (record :: (linesOf [] stream).1, (linesOf [] stream).2)
    else
      let rest := linesOf (remainder newline record bytes) stream
      (records newline record bytes ++ rest.1, rest.2)

section

variable {stream stream' : List ReadAnswer} {record : List Byte}

theorem linesOf_failed {errno : Errno} (h : read 1 stream = (.failed errno, stream')) :
    linesOf record stream = if errno = .eintr then linesOf record stream' else ([], some errno) := by
  match stream with
  | [] => cases h
  | .failed _ :: _ =>
    cases h
    rfl
  | .offered _ :: _ => cases h

theorem linesOf_end (h : read 1 stream = (.offered [], stream')) :
    linesOf record stream =
      if record = [] then ([], none) else (record :: (linesOf [] stream').1, (linesOf [] stream').2) := by
  match stream with
  | [] =>
    cases h
    rw [linesOf]
    split_ifs <;> rfl
  | .failed _ :: _ => cases h
  | .offered bytes :: stream =>
    simp only [Stream.read, Prod.mk.injEq, ReadAnswer.offered.injEq, List.take_eq_nil_iff] at h
    obtain rfl : bytes = [] := h.1.resolve_left Nat.one_ne_zero
    obtain rfl : stream = stream' := h.2
    rw [linesOf, if_pos rfl]

/-- What a call of one byte has left of the bytes that have come together. -/
theorem linesOf_rest (ch : Byte) (record rest : List Byte) (stream : List ReadAnswer) :
    linesOf record (if (ch :: rest).length ≤ 1 then stream else .offered rest :: stream) =
      (records newline record rest ++ (linesOf (remainder newline record rest) stream).1,
        (linesOf (remainder newline record rest) stream).2) := by
  cases rest with
  | nil => rfl
  | cons next rest => rw [if_neg (by simp), linesOf, if_neg (List.cons_ne_nil _ _)]

theorem linesOf_byte {ch : Byte} {bytes : List Byte}
    (h : read 1 stream = (.offered (ch :: bytes), stream')) :
    linesOf record stream =
      if ch = newline then ((record ++ [newline]) :: (linesOf [] stream').1, (linesOf [] stream').2)
      else linesOf (record ++ [ch]) stream' := by
  match stream with
  | [] => cases h
  | .failed _ :: _ => cases h
  | .offered [] :: _ => cases h
  | .offered (ch' :: rest) :: stream =>
    simp only [Stream.read, List.take_succ_cons, List.take_zero, List.drop_succ_cons, List.drop_zero,
      Prod.mk.injEq, ReadAnswer.offered.injEq, List.cons.injEq] at h
    obtain ⟨⟨rfl, -⟩, rfl⟩ := h
    rw [linesOf, if_neg (List.cons_ne_nil _ _), records, remainder, linesOf_rest, linesOf_rest]
    split_ifs <;> rfl

end

/-! ### The calls -/

section

variable {n : ℕ} {block : List Byte}

/-- A buffer that begins with what has been read of a line, as far as there is room. -/
def holding (n : ℕ) (block record : List Byte) : List Byte :=
  record.take (n - 1) ++ block.drop (record.take (n - 1)).length

theorem length_holding (hroom : n ≤ block.length) (record : List Byte) :
    (holding n block record).length = block.length := by
  rw [holding, List.length_append, List.length_drop, List.length_take]
  omega

theorem holding_nil (n : ℕ) (block : List Byte) : holding n block [] = block := by
  simp [holding]

theorem placeByte_holding (hroom : n ≤ block.length) (record : List Byte) (ch : Byte) :
    placeByte n (holding n block record) (record.take (n - 1)).length ch =
      .ok (holding n block (record ++ [ch]), ((record ++ [ch]).take (n - 1)).length) := by
  have hlen := length_holding hroom record
  rcases Nat.lt_or_ge record.length (n - 1) with hlt | hge
  · have htake : record.take (n - 1) = record := List.take_of_length_le hlt.le
    have htake' : (record ++ [ch]).take (n - 1) = record ++ [ch] :=
      List.take_of_length_le (by simp; omega)
    rw [placeByte, htake, if_pos hlt, store_natCast _ (by simp [hlen]; omega), ok_bind]
    simp [holding, htake, htake']
  · have htake : (record ++ [ch]).take (n - 1) = record.take (n - 1) :=
      List.take_append_of_le_length hge
    have hfull : ¬ (record.take (n - 1)).length < n - 1 := by
      rw [List.length_take]
      omega
    rw [placeByte, if_neg hfull]
    simp [holding, htake]

/-- A buffer with a line as a string, as far as there is room. -/
def holdingString (n : ℕ) (block line : List Byte) : List Byte :=
  line.take (n - 1) ++ 0 :: block.drop ((line.take (n - 1)).length + 1)

theorem endLine_holding (hn : 0 < n) (hroom : n ≤ block.length) (stream : List ReadAnswer)
    (line : List Byte) :
    endLine stream (holding n block line) (line.take (n - 1)).length =
      .ok (.ok (line.take (n - 1)).length, stream, holdingString n block line) := by
  have hlt : (line.take (n - 1)).length < block.length := by
    rw [List.length_take]
    omega
  have hstore := store_one (holding n block line) (by rwa [length_holding hroom]) 0
  rw [endLine, hstore, ok_bind, holding, List.set_append_right _ _ le_rfl, Nat.sub_self,
    List.drop_eq_getElem_cons hlt, List.set_cons_zero, holdingString]

/-- What a call does where a stream has these lines before it. -/
inductive LineCall (n : ℕ) (block : List Byte) : List (List Byte) × Option Errno →
    Except Errno ℕ × List ReadAnswer × List Byte → Prop where
  | stop {stream' : List ReadAnswer} {buffer' : List Byte} :
      LineCall n block ([], none) (.ok 0, stream', buffer')
  | failed {stream' : List ReadAnswer} {buffer' : List Byte} {errno : Errno} :
      LineCall n block ([], some errno) (.error errno, stream', buffer')
  | line {stream' : List ReadAnswer} {line : List Byte} {lines : List (List Byte)}
      {last : Option Errno} (hne : line ≠ []) (hlines : linesOf [] stream' = (lines, last)) :
      LineCall n block (line :: lines, last)
        (.ok (line.take (n - 1)).length, stream', holdingString n block line)

theorem readLineLoop_cases (hn : 2 ≤ n) (hroom : n ≤ block.length) (stream : List ReadAnswer)
    (record : List Byte) :
    ∃ call, readLineLoop n stream (holding n block record) (record.take (n - 1)).length = .ok call ∧
      LineCall n block (linesOf record stream) call := by
  induction hsize : answers stream using Nat.strong_induction_on generalizing stream record with
  | _ size ih =>
    subst hsize
    rw [readLineLoop]
    split
    · rename_i errno stream' hread
      rw [linesOf_failed hread]
      split_ifs with hintr
      · subst hintr
        exact ih _ (answers_failed hread) stream' record rfl
      · exact ⟨_, rfl, .failed⟩
    · rename_i stream' hread
      rw [linesOf_end hread]
      have hzero : (record.take (n - 1)).length = 0 ↔ record = [] := by
        rw [List.length_take, ← List.length_eq_zero_iff]
        omega
      simp only [hzero]
      split_ifs with hnil
      · exact ⟨_, rfl, .stop⟩
      · exact ⟨_, endLine_holding (by omega) hroom stream' record, .line hnil rfl⟩
    · rename_i ch bytes stream' hread
      rw [linesOf_byte hread, placeByte_holding hroom, ok_bind]
      dsimp only
      split_ifs with hch
      · subst hch
        exact ⟨_, endLine_holding (by omega) hroom stream' _, .line (by simp) rfl⟩
      · exact ih _ (answers_offered hread) stream' _ rfl

theorem readLine_cases (hn : 2 ≤ n) (hroom : n ≤ block.length) (stream : List ReadAnswer) :
    ∃ result stream' buffer', readLine stream (some block) n = .ok (result, stream', some buffer') ∧
      LineCall n block (linesOf [] stream) (result, stream', buffer') := by
  obtain ⟨⟨result, stream', buffer'⟩, hloop, hcall⟩ := readLineLoop_cases hn hroom stream []
  rw [holding_nil, List.take_nil, List.length_nil] at hloop
  refine ⟨result, stream', buffer', ?_, hcall⟩
  rw [readLine, if_neg (by omega), hloop, ok_bind]

/-- A line as the caller gets it. -/
def cutString (n : ℕ) (line : List Byte) : List Byte := line.take (n - 1) ++ [0]

theorem take_holdingString (n : ℕ) (block line : List Byte) :
    (holdingString n block line).take ((line.take (n - 1)).length + 1) = cutString n line := by
  have hsplit : holdingString n block line =
      cutString n line ++ block.drop ((line.take (n - 1)).length + 1) := by
    simp [holdingString, cutString]
  rw [hsplit]
  exact List.take_left' (by simp [cutString])

theorem length_holdingString (hn : 0 < n) (hroom : n ≤ block.length) (line : List Byte) :
    (holdingString n block line).length = block.length := by
  simp only [holdingString, List.length_append, List.length_cons, List.length_drop, List.length_take]
  omega

theorem length_cut_ne_zero (hn : 2 ≤ n) {line : List Byte} (hne : line ≠ []) :
    (line.take (n - 1)).length ≠ 0 := by
  rw [List.length_take]
  have := List.length_pos_of_ne_nil hne
  omega

theorem lineCalls_of_linesOf (hn : 2 ≤ n) {lines : List (List Byte)} {last : Option Errno}
    {stream : List ReadAnswer} {buffer : List Byte} (hroom : n ≤ buffer.length)
    (hlines : linesOf [] stream = (lines, last)) :
    LineCalls n stream buffer (lines.map (cutString n)) last := by
  induction lines generalizing stream buffer with
  | nil =>
    obtain ⟨result, stream', buffer', hread, hcall⟩ := readLine_cases hn hroom stream
    rw [hlines] at hcall
    cases hcall with
    | stop => exact .stop hread
    | failed => exact .failed hread
  | cons line lines ih =>
    obtain ⟨result, stream', buffer', hread, hcall⟩ := readLine_cases hn hroom stream
    rw [hlines] at hcall
    cases hcall with
    | line hne hlines' =>
      have hroom' : n ≤ (holdingString n buffer line).length := by
        rwa [length_holdingString (by omega) hroom]
      rw [List.map_cons, ← take_holdingString n buffer line]
      exact .line hread (length_cut_ne_zero hn hne) (ih hroom' hlines')

theorem LineCalls.unique {stream : List ReadAnswer} {buffer : List Byte}
    {strings strings' : List (List Byte)} {last last' : Option Errno}
    (h : LineCalls n stream buffer strings last) (h' : LineCalls n stream buffer strings' last') :
    strings = strings' ∧ last = last' := by
  induction h generalizing strings' last' with
  | stop hcall =>
    cases h' with
    | stop => exact ⟨rfl, rfl⟩
    | failed hcall' => cases hcall.symm.trans hcall'
    | line hcall' hcount =>
      cases hcall.symm.trans hcall'
      exact absurd rfl hcount
  | failed hcall =>
    cases h' with
    | stop hcall' => cases hcall.symm.trans hcall'
    | failed hcall' =>
      cases hcall.symm.trans hcall'
      exact ⟨rfl, rfl⟩
    | line hcall' => cases hcall.symm.trans hcall'
  | line hcall hcount _ ih =>
    cases h' with
    | stop hcall' =>
      cases hcall.symm.trans hcall'
      exact absurd rfl hcount
    | failed hcall' => cases hcall.symm.trans hcall'
    | line hcall' _ hlines =>
      cases hcall.symm.trans hcall'
      obtain ⟨rfl, rfl⟩ := ih hlines
      exact ⟨rfl, rfl⟩

/-- The lines of a stream that calls of `read` can be interrupted in, but that does not fail. -/
theorem linesOf_steady {stream : List ReadAnswer} (hsteady : Steady stream) (record : List Byte) :
    linesOf record stream =
      (records newline record (pending stream) ++
        if remainder newline record (pending stream) = [] then []
        else [remainder newline record (pending stream)], none) := by
  induction stream generalizing record with
  | nil => rfl
  | cons answer stream ih =>
    rcases hsteady answer List.mem_cons_self with rfl | ⟨bytes, hne, rfl⟩
    · exact ih hsteady.tail record
    · rw [linesOf, if_neg hne, ih hsteady.tail, pending, records_of_append, remainder_append,
        List.append_assoc]

theorem flatten_linesOf {stream : List ReadAnswer} (hsteady : Steady stream) :
    (linesOf [] stream).1.flatten = pending stream := by
  have hall := flatten_records newline [] (pending stream)
  rw [linesOf_steady hsteady, List.flatten_append]
  split_ifs with hnil
  · rwa [hnil] at hall
  · rw [List.flatten_singleton, hall, List.nil_append]

/-- Call after call gives each line of the stream, cut to the size of the buffer, as a string, and
after the last of them 0, or -1 where `read` has failed with another error than an interruption;
the line that this error cuts off is lost. Of a stream that does not fail nothing is lost exactly
if every line fits. -/
theorem read_line {n : ℕ} (hn : 2 ≤ n) {buffer : List Byte} (hroom : n ≤ buffer.length)
    (stream : List ReadAnswer) :
    (∀ strings last, LineCalls n stream buffer strings last ↔
      strings = (linesOf [] stream).1.map (cutString n) ∧ last = (linesOf [] stream).2) ∧
    (Steady stream →
      linesOf [] stream = (records newline [] (pending stream) ++
        if remainder newline [] (pending stream) = [] then [] else [remainder newline [] (pending stream)],
        none) ∧
      (((linesOf [] stream).1.map fun line => line.take (n - 1)).flatten = pending stream ↔
        ∀ line ∈ (linesOf [] stream).1, line.length < n)) := by
  refine ⟨fun strings last => ⟨fun hcalls => ?_, ?_⟩, fun hsteady => ⟨linesOf_steady hsteady [], ?_⟩⟩
  · exact hcalls.unique (lineCalls_of_linesOf hn hroom rfl)
  · rintro ⟨rfl, rfl⟩
    exact lineCalls_of_linesOf hn hroom rfl
  · rw [← flatten_linesOf hsteady, flatten_map_take_iff]
    exact forall₂_congr fun line _ => by omega

/-- A line that is cut, one that fits, and the end of a stream that does not end with a line. -/
theorem read_line_cut :
    LineCalls 3 [.offered [97, 98, 99, 10, 100], .failed .eintr, .offered [10, 101]] [0, 0, 0]
      [[97, 98, 0], [100, 10, 0], [101, 0]] none :=
  ((read_line (by decide) (by decide) _).1 _ _).mpr (by decide)

end

end OsProgramming.Tlpi
