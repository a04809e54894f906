import OsProgramming.Stream.HostileMessage
import OsProgramming.Stream.Transfer

/-! `readn` and `writen` of `rdwrn.c`, which count up to the size that they are given, as `size_t`.
The functions of the same names in `read.c` and `write.c` count down. -/

namespace OsProgramming.Tlpi

open Library Reactor OsProgramming.Stream

/-- The loop of `readn`. Its result is nothing if it returns -1. -/
def readnLoop (n : ℕ) (stream : List ReadAnswer) (buffer : List Byte) (totRead : ℕ) :
    Result (Option ℕ × List ReadAnswer × List Byte) :=
  if totRead < n then
    match _h : read (n - totRead) stream with
    | (.failed errno, stream') =>
      if errno = .eintr then readnLoop n stream' buffer totRead
      else .ok (none, stream', buffer)
    | (.offered [], stream') => .ok (some totRead, stream', buffer)
    | (.offered (byte :: bytes), stream') =>
      store buffer totRead (byte :: bytes) >>= fun buffer' =>
        readnLoop n stream' buffer' (totRead + (byte :: bytes).length)
  else .ok (some totRead, stream, buffer)
termination_by answers stream
decreasing_by
  · exact answers_failed _h
  · exact answers_offered _h

def readn (stream : List ReadAnswer) (buffer : List Byte) (n : ℕ) :
    Result (Option ℕ × List ReadAnswer × List Byte) :=
  readnLoop n stream buffer 0

/-- The loop of `writen`, with the bytes that have been taken. Where the list of answers ends, all
that is left is taken. -/
def writenLoop (data : List Byte) (n totWritten : ℕ) (sent : List Byte) :
    List WriteAnswer → Result (Option ℕ × List Byte)
  | [] =>
    if totWritten < n then do
      let bytes ← fetch data totWritten (n - totWritten : ℕ)
      .ok (some (totWritten + bytes.length), sent ++ bytes)
    else .ok (some totWritten, sent)
  | answer :: answers =>
    if totWritten < n then do
      let bytes ← fetch data totWritten (n - totWritten : ℕ)
      let numWritten := answer.result bytes
      if numWritten ≤ 0 then
        if numWritten = -1 ∧ answer = .failed .eintr then
          writenLoop data n totWritten sent answers
        else .ok (none, sent)
      else
        writenLoop data n (totWritten + numWritten.toNat) (sent ++ answer.taken bytes) answers
    else .ok (some totWritten, sent)

def writen (answers : List WriteAnswer) (data : List Byte) (n : ℕ) :
    Result (Option ℕ × List Byte) :=
  writenLoop data n 0 [] answers

/-! ### What counts up and what counts down -/

section

variable {n : ℕ}

/-- The loop that counts down has the rest where this one has the count. -/
theorem readnLoop_eq (stream : List ReadAnswer) (buffer : List Byte) {totRead : ℕ} (hle : totRead ≤ n) :
    Stream.readnLoop stream buffer totRead (n - totRead : ℕ) =
      (readnLoop n stream buffer totRead).map fun (count, stream, buffer) =>
        (count.map fun count : ℕ => (n - count : ℤ), stream, buffer) := by
  induction hsize : answers stream using Nat.strong_induction_on
    generalizing stream buffer totRead
    with
  | _ size ih =>
    subst hsize
    rcases Nat.lt_or_ge totRead n with hlt | hge
    · have hpos : 0 < n - totRead := by omega
      rw [readnLoop, if_pos hlt]
      split
      · rename_i errno stream' hread
        split_ifs with hintr
        · subst hintr
          rw [readnLoop_interrupted hpos hread]
          exact ih _ (answers_failed hread) stream' buffer hle rfl
        · rw [readnLoop_failed hpos hintr hread]
          rfl
      · rename_i stream' hread
        rw [readnLoop_end hpos hread, Nat.cast_sub hle]
        rfl
      · rename_i byte bytes stream' hread
        have hlen : (byte :: bytes).length ≤ n - totRead := length_read hread
        rw [readnLoop_data hpos hread]
        cases hstore : store buffer totRead (byte :: bytes) with
        | error fault => rfl
        | ok buffer' =>
          have hnext := ih _ (answers_offered hread) stream' buffer'
            (by omega : totRead + (byte :: bytes).length ≤ n) rfl
          have hleft : ((n - totRead : ℕ) : ℤ) - (byte :: bytes).length =
              (n - (totRead + (byte :: bytes).length) : ℕ) := by omega
          rw [ok_bind, ok_bind, hleft, ← Nat.cast_add, hnext]
    · obtain rfl : totRead = n := le_antisymm hle hge
      rw [Nat.sub_self, Nat.cast_zero, readnLoop_zero, readnLoop, if_neg (lt_irrefl _)]
      simp [Except.map]

theorem writenLoop_eq {data : List Byte} (hn : n ≤ data.length) {totWritten : ℕ}
    (hle : totWritten ≤ n) (sent : List Byte) (answers : List WriteAnswer) :
    writenLoop data n totWritten sent answers =
      (Stream.writenLoop data totWritten (n - totWritten : ℕ) sent answers).map fun (done, sent) =>
        (if done then some n else none, sent) := by
  induction answers generalizing totWritten sent with
  | nil =>
    rw [writenLoop, Stream.writenLoop]
    rcases Nat.lt_or_ge totWritten n with hlt | hge
    · have hleft : (0 : ℤ) < (n - totWritten : ℕ) := by omega
      have hlen : ((data.drop totWritten).take (n - totWritten)).length = n - totWritten := by
        rw [List.length_take, List.length_drop]
        omega
      rw [if_pos hlt, if_pos hleft, fetch_natCast data (by omega), ok_bind, ok_bind, hlen,
        Nat.add_sub_cancel' hle]
      rfl
    · obtain rfl : totWritten = n := le_antisymm hle hge
      rw [if_neg (lt_irrefl _), Nat.sub_self, Nat.cast_zero, if_neg (lt_irrefl _)]
      rfl
  | cons answer answers ih =>
    rw [writenLoop]
    rcases Nat.lt_or_ge totWritten n with hlt | hge
    · have hfits : totWritten + (n - totWritten) ≤ data.length := by omega
      have hleft : (0 : ℤ) < (n - totWritten : ℕ) := by omega
      have hlen : ((data.drop totWritten).take (n - totWritten)).length ≤ n - totWritten :=
        List.length_take_le _ _
      rw [Stream.writenLoop, if_pos hlt, if_pos hleft, fetch_natCast data hfits, ok_bind, ok_bind]
      generalize (data.drop totWritten).take (n - totWritten) = bytes at hlen
      cases answer with
      | failed errno =>
        by_cases hintr : errno = .eintr
        · subst hintr
          exact ih hle sent
        · simp [WriteAnswer.result, hintr, Except.map]
      | accepts room =>
        have hresult : (WriteAnswer.accepts room).result bytes = (bytes.take room).length := rfl
        have htaken : (bytes.take room).length ≤ n - totWritten :=
          (List.length_take_le' room bytes).trans hlen
        have hrest : ((n - totWritten : ℕ) : ℤ) - (bytes.take room).length =
            (n - (totWritten + (bytes.take room).length) : ℕ) := by omega
        dsimp only
        by_cases hcount : (WriteAnswer.accepts room).result bytes ≤ 0
        · rw [if_pos hcount, if_pos hcount, if_neg (by simp), if_neg (by simp)]
          rfl
        · rw [if_neg hcount, if_neg hcount, hresult, Int.toNat_natCast, hrest, ← Nat.cast_add]
          exact ih (by omega) _
    · obtain rfl : totWritten = n := le_antisymm hle hge
      rw [if_neg (lt_irrefl _), Nat.sub_self, Nat.cast_zero, writenLoop_zero]
      rfl

theorem writen_eq {data : List Byte} (hn : n ≤ data.length) (answers : List WriteAnswer) :
    Stream.writen answers data n =
      (writen answers data n).map fun (result, sent) => (result.elim (-1) (↑), sent) := by
  have hloop := writenLoop_eq hn (Nat.zero_le n) [] answers
  rw [Nat.cast_zero, Nat.sub_zero] at hloop
  rw [Stream.writen, writen, hloop]
  rcases Stream.writenLoop data 0 n [] answers with fault | ⟨_ | _, sent⟩ <;> rfl

theorem writen_of_writen {data sent : List Byte} (hn : n ≤ data.length) {answers : List WriteAnswer}
    (result : Option ℕ) (h : Stream.writen answers data n = .ok (result.elim (-1) (↑), sent)) :
    writen answers data n = .ok (result, sent) := by
  rw [writen_eq hn] at h
  cases hwrite : writen answers data n with
  | error fault =>
    rw [hwrite] at h
    cases h
  | ok call =>
    obtain ⟨result', sent'⟩ := call
    rw [hwrite] at h
    simp only [Except.map, Except.ok.injEq, Prod.mk.injEq] at h
    obtain ⟨hresult, rfl⟩ := h
    have heq : result' = result := by
      cases result' <;> cases result <;> simp_all
    rw [heq]

/-- What the loop that counts down does from the start, the call does. -/
theorem readn_of_readnLoop {stream stream' : List ReadAnswer} {buffer buffer' : List Byte}
    {left : Option ℤ}
    (h : Stream.readnLoop stream buffer (0 : ℕ) n = .ok (left, stream', buffer')) :
    ∃ result, readn stream buffer n = .ok (result, stream', buffer') ∧
      left = result.map fun count : ℕ => (n - count : ℤ) := by
  have hup := readnLoop_eq stream buffer (Nat.zero_le n)
  rw [Nat.sub_zero, h] at hup
  cases hread : readnLoop n stream buffer 0 with
  | error fault =>
    rw [hread] at hup
    cases hup
  | ok call =>
    obtain ⟨result, stream'', buffer''⟩ := call
    rw [hread] at hup
    simp only [Except.map, Except.ok.injEq, Prod.mk.injEq] at hup
    obtain ⟨rfl, rfl, rfl⟩ := hup
    exact ⟨result, hread, rfl⟩

theorem readn_any (stream : List ReadAnswer) {buffer : List Byte} (hroom : n ≤ buffer.length) :
    ∃ result stream' bytes, readn stream buffer n =
        .ok (result, stream', bytes ++ buffer.drop bytes.length) ∧
      pending stream = bytes ++ pending stream' ∧ bytes.length ≤ n ∧
      (FailsWithin stream n ∧ result = none ∨ ¬ FailsWithin stream n ∧ result = some bytes.length) := by
  obtain ⟨left, stream', bytes, hloop, hpending, hle, hleft⟩ :=
    readnLoop_cases stream (show 0 + n ≤ buffer.length by omega)
  obtain ⟨result, hread, rfl⟩ := readn_of_readnLoop hloop
  refine ⟨result, stream', bytes, by simpa using hread, hpending, hle, ?_⟩
  refine hleft.imp (And.imp_right Option.map_eq_none_iff.mp) (And.imp_right fun hcount => ?_)
  obtain ⟨count, rfl, hcount⟩ := Option.map_eq_some_iff.mp hcount
  exact congrArg some (by omega)

theorem readn_steady {stream : List ReadAnswer} (hsteady : Steady stream) {buffer : List Byte}
    (hroom : n ≤ buffer.length) :
    ∃ stream', readn stream buffer n = .ok (some ((pending stream).take n).length, stream',
        (pending stream).take n ++ buffer.drop ((pending stream).take n).length) ∧
      pending stream' = (pending stream).drop n := by
  obtain ⟨stream', hloop, -, hpending⟩ :=
    readnLoop_spec hsteady (show 0 + n ≤ buffer.length by omega)
  obtain ⟨result, hread, hleft⟩ := readn_of_readnLoop hloop
  obtain ⟨count, rfl, hcount⟩ := Option.map_eq_some_iff.mp hleft.symm
  obtain rfl : count = ((pending stream).take n).length := by omega
  exact ⟨stream', by simpa using hread, hpending⟩

/-- As long as an `int` can hold the size, the two functions are one. -/
theorem readn_eq (hn : (n : ℤ) ≤ intMax) (stream : List ReadAnswer) (buffer : List Byte) :
    Stream.readn stream buffer n = (readn stream buffer n).map fun (result, stream, buffer) =>
      (toSizeT (result.elim (-1) (↑)), stream, buffer) := by
  have hloop := readnLoop_eq stream buffer (Nat.zero_le n)
  rw [Nat.cast_zero, Nat.sub_zero] at hloop
  rw [Stream.readn, wrapInt_of_le (by omega) hn, hloop, readn]
  rcases readnLoop n stream buffer 0 with fault | ⟨_ | count, stream', buffer'⟩
  · rfl
  · rfl
  · simp [Except.map]

end

/-- `writen` passes all of the data, or a prefix of it and returns -1 when a call fails. `readn`
returns the number of the bytes that it has stored, or -1 exactly when a call fails before they
are there, and on a stream that does not fail it stores all that is there and that it is asked
for. All of this holds for every size of a buffer, and where an `int` can hold the size, for the
functions of `read.c` and `write.c` too, since they do the same. -/
theorem readn_writen (data : List Byte) :
    (∀ answers, Progresses answers → writen answers data data.length = .ok (some data.length, data)) ∧
    (∀ before answer after, Progresses before → WriteFails answer → accepted before < data.length →
      writen (before ++ answer :: after) data data.length = .ok (none, data.take (accepted before))) ∧
    (∀ stream buffer n, n ≤ buffer.length →
      ∃ result stream' bytes, readn stream buffer n =
          .ok (result, stream', bytes ++ buffer.drop bytes.length) ∧
        pending stream = bytes ++ pending stream' ∧ bytes.length ≤ n ∧
        (FailsWithin stream n ∧ result = none ∨ ¬ FailsWithin stream n ∧ result = some bytes.length)) ∧
    (∀ stream buffer n, Steady stream → n ≤ buffer.length →
      ∃ stream', readn stream buffer n = .ok (some ((pending stream).take n).length, stream',
          (pending stream).take n ++ buffer.drop ((pending stream).take n).length) ∧
        pending stream' = (pending stream).drop n) ∧
    (∀ stream buffer (n : ℕ), (n : ℤ) ≤ intMax →
      Stream.readn stream buffer n = (readn stream buffer n).map fun (result, stream, buffer) =>
        (toSizeT (result.elim (-1) (↑)), stream, buffer)) ∧
    ∀ answers n, n ≤ data.length →
      Stream.writen answers data n =
        (writen answers data n).map fun (result, sent) => (result.elim (-1) (↑), sent) := by
  refine ⟨?_, ?_, fun stream buffer n => readn_any stream, ?_, ?_, fun answers n hn => writen_eq hn answers⟩
  · intro answers hprogress
    exact writen_of_writen le_rfl (some data.length) (writen_spec hprogress data)
  · intro before answer after hprogress hfails hlt
    exact writen_of_writen le_rfl none (writen_fails hprogress hfails hlt after)
  · exact fun stream buffer n hsteady hroom => readn_steady hsteady hroom
  · exact fun stream buffer n hn => readn_eq hn stream buffer

/-- Two bytes are taken before a call fails; three are read in two pieces, and the same by `readn` of
`read.c`. -/
theorem readn_writen_cut :
    writen [.accepts 2, .failed .eintr, .failed .epipe] [1, 2, 3] 3 = .ok (none, [1, 2]) ∧
      ∃ stream', readn [.offered [5, 6], .failed .eintr, .offered [7, 8]] [0, 0, 0] 3 =
          .ok (some 3, stream', [5, 6, 7]) ∧
        Stream.readn [.offered [5, 6], .failed .eintr, .offered [7, 8]] [0, 0, 0] 3 =
          .ok (3, stream', [5, 6, 7]) ∧ pending stream' = [8] := by
  obtain ⟨-, hfails, -, hsteady, hsame, -⟩ := readn_writen [1, 2, 3]
  have hprogress : Progresses [.accepts 2, .failed .eintr] := by simp [Progresses]
  have hfailed : WriteFails (.failed .epipe) := .inr ⟨.epipe, by decide, rfl⟩
  obtain ⟨stream', hread, hpending⟩ := hsteady [.offered [5, 6], .failed .eintr, .offered [7, 8]]
    [0, 0, 0] 3 (by simp [Steady]) (by decide)
  refine ⟨hfails _ _ [] hprogress hfailed (by decide), stream', hread, ?_, hpending⟩
  rw [hsame _ _ 3 (by decide), hread]
  rfl

end OsProgramming.Tlpi
