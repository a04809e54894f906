import OsProgramming.Stream.Message

/-! Transfers of a given length. `writen` and `readn` go on behind what a call has
transferred, so how the calls are cut does not show: what has passed is a prefix of
the data, as long as the calls together allow. -/

namespace OsProgramming.Stream

open Library Reactor

/-- The loop of `writen`, with the bytes that the socket has taken. Where the list of
answers ends, the socket takes all that is left. -/
def writenLoop (data : List Byte) (ptr leftCount : ℤ) (sent : List Byte) :
    List WriteAnswer → Result (Bool × List Byte)
  | [] =>
    if 0 < leftCount then do
      let bytes ← fetch data ptr leftCount
      .ok (true, sent ++ bytes)
    else .ok (true, sent)
  | answer :: answers =>
    if 0 < leftCount then do
      let bytes ← fetch data ptr leftCount
      let sizeWritten := answer.result bytes
      if sizeWritten ≤ 0 then
        if sizeWritten < 0 ∧ answer = .failed .eintr then writenLoop data ptr leftCount sent answers
        else .ok (false, sent)
      else
        writenLoop data (ptr + sizeWritten) (leftCount - sizeWritten) (sent ++ answer.taken bytes)
          answers
    else .ok (true, sent)

/-- The return value, and the bytes that the socket has taken. -/
def writen (answers : List WriteAnswer) (data : List Byte) (n : ℕ) : Result (ℤ × List Byte) := do
  let (done, sent) ← writenLoop data 0 n [] answers
  .ok (if done then n else -1, sent)

/-- Every call takes something or is interrupted. -/
def Progresses (answers : List WriteAnswer) : Prop :=
  ∀ answer ∈ answers, answer = .failed .eintr ∨ ∃ room, 0 < room ∧ answer = .accepts room

/-- The call fails with another error, or takes nothing. -/
def WriteFails (answer : WriteAnswer) : Prop :=
  answer = .accepts 0 ∨ ∃ errno, errno ≠ .eintr ∧ answer = .failed errno

/-- What the calls take together. -/
def accepted : List WriteAnswer → ℕ
  | [] => 0
  | .failed _ :: answers => accepted answers
  | .accepts room :: answers => room + accepted answers

theorem Progresses.tail {answer : WriteAnswer} {answers : List WriteAnswer}
    (h : Progresses (answer :: answers)) : Progresses answers :=
  fun answer' hmem => h answer' (List.mem_cons_of_mem _ hmem)

section

variable {data sent : List Byte} {ptr left : ℕ} {answers rest : List WriteAnswer}

theorem writenLoop_zero (ptr : ℤ) : writenLoop data ptr 0 sent answers = .ok (true, sent) := by
  cases answers <;> rfl

theorem writenLoop_interrupted (h : ptr + left ≤ data.length) :
    writenLoop data ptr left sent (.failed .eintr :: answers) =
      writenLoop data ptr left sent answers := by
  rcases Nat.eq_zero_or_pos left with rfl | hpos
  · rw [Nat.cast_zero, writenLoop_zero, writenLoop_zero]
  · have hleft : (0 : ℤ) < left := by omega
    simp only [writenLoop, hleft, ↓reduceIte, fetch_natCast data h, ok_bind, WriteAnswer.result]
    rfl

/-- A short count moves the pointer over what has been taken. -/
theorem writenLoop_takes {room : ℕ} (h : ptr + left ≤ data.length) (hroom : 0 < room)
    (hlt : room < left) :
    writenLoop data ptr left sent (.accepts room :: answers) =
      writenLoop data (ptr + room : ℕ) (left - room : ℕ) (sent ++ (data.drop ptr).take room)
        answers := by
  have hleft : (0 : ℤ) < left := by omega
  have htake : ((data.drop ptr).take left).take room = (data.drop ptr).take room := by
    rw [List.take_take, min_eq_left hlt.le]
  have hlen : ((data.drop ptr).take room).length = room := by simp; omega
  have hcount : ¬ (room : ℤ) ≤ 0 := by omega
  simp only [writenLoop, hleft, ↓reduceIte, fetch_natCast data h, ok_bind, WriteAnswer.result,
    WriteAnswer.taken, htake, hlen, hcount]
  congr 1
  omega

theorem writenLoop_all {room : ℕ} (h : ptr + left ≤ data.length) (hpos : 0 < left)
    (hle : left ≤ room) :
    writenLoop data ptr left sent (.accepts room :: answers) =
      .ok (true, sent ++ (data.drop ptr).take left) := by
  have hleft : (0 : ℤ) < left := by omega
  have htake : ((data.drop ptr).take left).take room = (data.drop ptr).take left := by
    rw [List.take_take, min_eq_right hle]
  have hlen : ((data.drop ptr).take left).length = left := by simp; omega
  have hcount : ¬ (left : ℤ) ≤ 0 := by omega
  simp only [writenLoop, hleft, ↓reduceIte, fetch_natCast data h, ok_bind, WriteAnswer.result,
    WriteAnswer.taken, htake, hlen, hcount, sub_self]
  exact writenLoop_zero _

/-- The loop goes on where the calls so far have left it, if they have left anything. -/
theorem writenLoop_spec {before : List WriteAnswer} (hprogress : Progresses before)
    (sent : List Byte) (rest : List WriteAnswer) (h : ptr + left ≤ data.length) :
    writenLoop data ptr left sent (before ++ rest) =
      if accepted before < left then
        writenLoop data (ptr + accepted before : ℕ) (left - accepted before : ℕ)
          (sent ++ (data.drop ptr).take (accepted before)) rest
      else .ok (true, sent ++ (data.drop ptr).take left) := by
  induction before generalizing ptr left sent with
  | nil =>
    rcases Nat.eq_zero_or_pos left with rfl | hpos
    · simp [accepted, writenLoop_zero]
    · simp [accepted, hpos]
  | cons answer before ih =>
    rcases hprogress answer List.mem_cons_self with rfl | ⟨room, hroom, rfl⟩
    · rw [List.cons_append, writenLoop_interrupted h, ih hprogress.tail sent h]
      rfl
    rw [List.cons_append, accepted]
    rcases Nat.eq_zero_or_pos left with rfl | hpos
    · simp [writenLoop_zero]
    by_cases hlt : room < left
    · rw [writenLoop_takes h hroom hlt, ih hprogress.tail _ (by omega)]
      have hiff : accepted before < left - room ↔ room + accepted before < left := by omega
      have hjoin (k : ℕ) : sent ++ (data.drop ptr).take room ++ (data.drop (ptr + room)).take k =
          sent ++ (data.drop ptr).take (room + k) := by
        rw [List.append_assoc, List.take_add, List.drop_drop]
      simp only [hiff, hjoin, Nat.add_assoc, Nat.sub_sub, Nat.add_sub_cancel' hlt.le]
    · rw [writenLoop_all h hpos (not_lt.mp hlt), if_neg (by omega)]

end

/-- Whatever the calls take, all of the data passes once and in order. -/
theorem writen_spec {answers : List WriteAnswer} (hprogress : Progresses answers)
    (data : List Byte) : writen answers data data.length = .ok (data.length, data) := by
  have hloop := writenLoop_spec hprogress [] [] (show 0 + data.length ≤ data.length by omega)
  simp only [List.append_nil, Nat.cast_zero, Nat.zero_add, List.drop_zero, List.nil_append,
    List.take_length] at hloop
  rw [writen, hloop]
  split_ifs with hlt
  · have hleft : (0 : ℤ) < (data.length - accepted answers : ℕ) := by omega
    have hfetch : fetch data (accepted answers) (data.length - accepted answers : ℕ) = _ :=
      fetch_natCast data (by omega)
    have hrest : (data.drop (accepted answers)).length ≤ data.length - accepted answers := by simp
    rw [writenLoop, if_pos hleft, hfetch, List.take_of_length_le hrest]
    simp only [ok_bind, List.take_append_drop, ↓reduceIte]
  · rfl

/-- A call that fails ends the transfer behind a prefix of the data. -/
theorem writen_fails {before : List WriteAnswer} {answer : WriteAnswer} {data : List Byte}
    (hprogress : Progresses before) (hfails : WriteFails answer)
    (hlt : accepted before < data.length) (after : List WriteAnswer) :
    writen (before ++ answer :: after) data data.length =
      .ok (-1, data.take (accepted before)) := by
  have hloop := writenLoop_spec hprogress [] (answer :: after)
    (show 0 + data.length ≤ data.length by omega)
  simp only [Nat.cast_zero, Nat.zero_add, List.drop_zero, List.nil_append, if_pos hlt] at hloop
  have hleft : (0 : ℤ) < (data.length - accepted before : ℕ) := by omega
  have hfetch : fetch data (accepted before) (data.length - accepted before : ℕ) = _ :=
    fetch_natCast data (by omega)
  rw [writen, hloop, writenLoop, if_pos hleft, hfetch]
  rcases hfails with rfl | ⟨errno, hne, rfl⟩
  · simp [WriteAnswer.result]
  · simp [WriteAnswer.result, hne]

/-! ### The other end -/

theorem read_append {n : ℕ} {stream : List ReadAnswer} (hne : stream ≠ [])
    (rest : List ReadAnswer) :
    read n (stream ++ rest) = ((read n stream).1, (read n stream).2 ++ rest) := by
  match stream with
  | [] => exact absurd rfl hne
  | .failed _ :: _ => rfl
  | .offered bytes :: stream =>
    simp only [read, List.cons_append]
    split_ifs <;> rfl

/-- The loop of `readn` goes on where a stream that goes on has left it. -/
theorem readnLoop_append {stream : List ReadAnswer} (hsteady : Steady stream)
    (rest : List ReadAnswer) {buffer : List Byte} {pointer n : ℕ}
    (hroom : pointer + n ≤ buffer.length) (hlt : (pending stream).length < n) :
    readnLoop (stream ++ rest) buffer pointer n =
      readnLoop rest (buffer.take pointer ++ pending stream ++
          buffer.drop (pointer + (pending stream).length))
        (pointer + (pending stream).length : ℕ) (n - (pending stream).length : ℕ) := by
  induction hsize : answers stream using Nat.strong_induction_on
    generalizing stream buffer pointer n
    with
  | _ size ih =>
    subst hsize
    rcases hsteady.read_cases (by omega : 0 < n) with
      ⟨hread, rfl⟩ | ⟨stream', hread, hsteady', hpending⟩ |
        ⟨byte, bytes, stream', hread, hsteady', hle, hpending⟩
    · simp [pending]
    · have hread' : read n (stream ++ rest) = (.failed .eintr, stream' ++ rest) := by
        rw [read_append (by rintro rfl; cases hread) rest, hread]
      rw [readnLoop_interrupted (by omega) hread',
        ih _ (answers_failed hread) hsteady' hroom (by rwa [hpending]) rfl, hpending]
    · have hread' : read n (stream ++ rest) = (.offered (byte :: bytes), stream' ++ rest) := by
        rw [read_append (by rintro rfl; cases hread) rest, hread]
      rw [readnLoop_stores hread' hle hroom]
      have hanswers := answers_offered hread
      generalize byte :: bytes = data at hanswers hpending ⊢
      have hsplit : (pending stream).length = data.length + (pending stream').length := by
        rw [hpending, List.length_append]
      have hfits : pointer + data.length ≤ buffer.length := by omega
      have hblock : pointer + data.length + (n - data.length) ≤
          (buffer.take pointer ++ data ++ buffer.drop (pointer + data.length)).length := by
        rw [length_stored data hfits]
        omega
      rw [ih _ hanswers hsteady' hblock (by omega) rfl,
        take_stored _ hfits, drop_stored _ hfits, hsplit, hpending,
        List.append_assoc (buffer.take pointer), Nat.add_assoc, Nat.sub_sub]

/-- A read that fails ends the transfer behind the bytes that have come. -/
theorem readn_fails {before after : List ReadAnswer} {errno : Errno} (hsteady : Steady before)
    (hne : errno ≠ .eintr) (buffer : List Byte) {n : ℕ} (hn : (n : ℤ) ≤ intMax)
    (hroom : n ≤ buffer.length) (hlt : (pending before).length < n) :
    readn (before ++ .failed errno :: after) buffer n =
      .ok (toSizeT (-1), after, pending before ++ buffer.drop (pending before).length) := by
  have hloop := readnLoop_append hsteady (.failed errno :: after)
    (show 0 + n ≤ buffer.length by omega) hlt
  simp only [Nat.cast_zero, Nat.zero_add, List.take_zero, List.nil_append] at hloop
  rw [readn, wrapInt_of_le (by omega) hn, hloop, readnLoop_failed (by omega) hne rfl, ok_bind]

/-- `writen` passes all of the data, once and in order, over every schedule of short
counts and interruptions, and a prefix of it when a call fails; so does `readn` at the
other end, which stops early where the stream ends. -/
theorem transfer_exact {data : List Byte} (hmax : (data.length : ℤ) ≤ intMax) :
    (∀ answers, Progresses answers →
      ∃ sent, writen answers data data.length = .ok (data.length, sent) ∧ sent = data ∧
        ∀ stream rest buffer, Steady stream → pending stream = sent ++ rest →
          data.length ≤ buffer.length →
          ∃ stream', readn stream buffer data.length =
              .ok (data.length, stream', data ++ buffer.drop data.length) ∧
            pending stream' = rest) ∧
    (∀ before answer after, Progresses before → WriteFails answer →
      accepted before < data.length →
      ∃ sent, writen (before ++ answer :: after) data data.length = .ok (-1, sent) ∧
        sent <+: data) ∧
    (∀ stream buffer n, Steady stream → pending stream = data → data.length < n →
      (n : ℤ) ≤ intMax → n ≤ buffer.length →
      ∃ stream', readn stream buffer n =
          .ok (data.length, stream', data ++ buffer.drop data.length) ∧ pending stream' = []) ∧
    (∀ before errno after buffer n, Steady before → errno ≠ .eintr →
      pending (before ++ .failed errno :: after) = data → (pending before).length < n →
      (n : ℤ) ≤ intMax → n ≤ buffer.length →
      ∃ received stream', readn (before ++ .failed errno :: after) buffer n =
          .ok (toSizeT (-1), stream', received ++ buffer.drop received.length) ∧
        received <+: data) := by
  refine ⟨?_, ?_, ?_, ?_⟩
  · intro answers hprogress
    refine ⟨data, writen_spec hprogress data, rfl, ?_⟩
    intro stream rest buffer hsteady hbytes hroom
    obtain ⟨stream', hread, -, hpending⟩ := readn_spec hsteady buffer hmax hroom
    rw [hbytes, List.take_left] at hread
    rw [hbytes, List.drop_left] at hpending
    exact ⟨stream', hread, hpending⟩
  · intro before answer after hprogress hfails hlt
    exact ⟨_, writen_fails hprogress hfails hlt after, List.take_prefix _ _⟩
  · intro stream buffer n hsteady hbytes hlt hn hroom
    obtain ⟨stream', hread, -, hpending⟩ := readn_spec hsteady buffer hn hroom
    rw [hbytes, List.take_of_length_le hlt.le] at hread
    rw [hbytes, List.drop_of_length_le hlt.le] at hpending
    exact ⟨stream', hread, hpending⟩
  · intro before errno after buffer n hsteady hne hbytes hlt hn hroom
    refine ⟨_, _, readn_fails hsteady hne buffer hn hroom hlt, ?_⟩
    rw [← hbytes, pending_append]
    exact List.prefix_append _ _

/-- Three bytes, written in two parts with an interruption between them and read back in
two others. -/
theorem transfer_exact_three :
    writen [.accepts 2, .failed .eintr] [7, 8, 9] 3 = .ok (3, [7, 8, 9]) ∧
      ∃ stream', readn [.offered [7], .failed .eintr, .offered [8, 9]] [0, 0, 0] 3 =
        .ok (3, stream', [7, 8, 9]) := by
  have hprogress : Progresses [.accepts 2, .failed .eintr] := by simp [Progresses]
  have hmax : (([7, 8, 9] : List Byte).length : ℤ) ≤ intMax := by decide
  obtain ⟨sent, hwrite, rfl, hread⟩ := (transfer_exact hmax).1 _ hprogress
  obtain ⟨stream', hread', -⟩ := hread [.offered [7], .failed .eintr, .offered [8, 9]] [] [0, 0, 0]
    (by simp [Steady]) rfl le_rfl
  exact ⟨hwrite, stream', hread'⟩

end OsProgramming.Stream
