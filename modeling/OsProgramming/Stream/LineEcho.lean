import OsProgramming.Library.Records
import OsProgramming.Reactor.EchoServer
import OsProgramming.Stream.Line

/-! `loop_echo` of the thread servers and `child_run` of `fork_server.c`. Both receive one byte
at a time and send a line back, encoded, when its end has come; of a line that is longer than
the buffer, the rest and the end are dropped. -/

namespace OsProgramming.Stream.LineEcho

open Library Reactor

def maxLine : ℕ := 4096

/-- What the loop has handed to `send`, whose result nobody looks at, and if the last `recv`
has failed. -/
structure LoopEnd where
  sent : List (List Byte)
  failed : Bool

/-- A byte that has been received, if there is room for it. -/
def keep (outputBuf : List Byte) (used : ℕ) (c : Byte) : Result (List Byte × ℕ) :=
  if used < outputBuf.length then do
    let outputBuf ← store outputBuf used [rot13Char c]
    .ok (outputBuf, used + 1)
  else .ok (outputBuf, used)

def echoLoop : ℕ → List ReadAnswer → List Byte → ℕ → List (List Byte) → Result LoopEnd
  | 0, _, _, _, _ => .error .divergence
  | fuel + 1, stream, outputBuf, used, sent =>
    match read 1 stream with
    | (.failed _, _) => .ok ⟨sent, true⟩
    | (.offered [], _) => .ok ⟨sent, false⟩
    | (.offered (c :: _), stream) => do
      let (outputBuf, used) ← keep outputBuf used c
      if c = newline then do
        let line ← fetch outputBuf 0 used
        echoLoop fuel stream outputBuf 0 (sent ++ [line])
      else echoLoop fuel stream outputBuf used sent

/-- What a client is sent, and if the process ends with an error. -/
structure Served where
  sent : List (List Byte)
  exits : Bool

/-- `fill` is what is on the stack. An error only ends the loop. -/
def childRun (fill : ℕ → Byte) (stream : List ReadAnswer) : Result Served := do
  let outputBuf := (List.range maxLine).map fill
  let run ← echoLoop (answers stream + 1) stream outputBuf 0 []
  .ok ⟨run.sent, false⟩

/-- An error ends the process, with all of its threads. -/
def loopEcho (fill : ℕ → Byte) (stream : List ReadAnswer) : Result Served := do
  let outputBuf := (List.range (maxLine + 1)).map fill
  let run ← echoLoop (answers stream + 1) stream outputBuf 0 []
  .ok ⟨run.sent, run.failed⟩

/-! ### What is sent for a stream -/

/-- The stream ends with a call that fails. -/
def endsInFailure : List ReadAnswer → Bool
  | [] => false
  | .failed _ :: _ => true
  | .offered bytes :: stream => if bytes = [] then false else endsInFailure stream

/-- The lines of the client, encoded and cut to the size of the buffer. -/
def answersTo (size : ℕ) (bytes : List Byte) : List (List Byte) :=
  (records newline [] bytes).map fun line => (line.map rot13Char).take size

theorem rot13Char_rot13Char (c : Byte) : rot13Char (rot13Char c) = c := by
  have hall : ∀ n : Fin 256, rot13Char (rot13Char (.ofFin n)) = .ofFin n := by decide +kernel
  exact hall c.toFin

theorem rot13Char_eq_newline_iff (c : Byte) : rot13Char c = newline ↔ c = newline := by
  have hall : ∀ n : Fin 256, rot13Char (.ofFin n) = newline ↔ UInt8.ofFin n = newline := by
    decide +kernel
  exact hall c.toFin

theorem endsInFailure_read {stream stream' : List ReadAnswer} {byte : Byte} {bytes : List Byte}
    (h : read 1 stream = (.offered (byte :: bytes), stream')) :
    endsInFailure stream = endsInFailure stream' := by
  match stream with
  | [] => cases h
  | .failed _ :: _ => cases h
  | .offered arrived :: stream =>
    simp only [read, Prod.mk.injEq, ReadAnswer.offered.injEq] at h
    obtain ⟨htake, rfl⟩ := h
    have hne : arrived ≠ [] := by
      rintro rfl
      cases htake
    rw [endsInFailure, if_neg hne]
    split_ifs with hlen
    · rfl
    · have hrest : arrived.drop 1 ≠ [] := by
        rw [ne_eq, List.drop_eq_nil_iff]
        exact hlen
      rw [endsInFailure, if_neg hrest]

theorem endsInFailure_end {stream stream' : List ReadAnswer}
    (h : read 1 stream = (.offered [], stream')) : endsInFailure stream = false := by
  match stream with
  | [] => rfl
  | .failed _ :: _ => cases h
  | .offered arrived :: stream =>
    simp only [read, Prod.mk.injEq, ReadAnswer.offered.injEq, List.take_eq_nil_iff] at h
    rw [endsInFailure, if_pos (h.1.resolve_left Nat.one_ne_zero)]

/-- A byte is kept while the line fits. -/
theorem keep_eq {outputBuf record : List Byte} {used : ℕ} (c : Byte)
    (hused : outputBuf.take used = (record.map rot13Char).take outputBuf.length)
    (hlen : used = min record.length outputBuf.length) :
    ∃ outputBuf' used', keep outputBuf used c = .ok (outputBuf', used') ∧
      outputBuf'.length = outputBuf.length ∧
      outputBuf'.take used' = ((record ++ [c]).map rot13Char).take outputBuf.length ∧
      used' = min (record ++ [c]).length outputBuf.length := by
  rw [List.map_append, List.length_append, List.length_singleton]
  by_cases hroom : used < outputBuf.length
  · have hrecord : used = record.length := by omega
    refine ⟨outputBuf.set used (rot13Char c), used + 1, ?_, List.length_set, ?_, by omega⟩
    · rw [keep, if_pos hroom, store_one _ hroom, ok_bind]
    · rw [take_succ_set hroom, hused, List.take_of_length_le (by rw [List.length_map]; omega),
        List.take_of_length_le (by simp; omega)]
      rfl
  · refine ⟨outputBuf, used, by rw [keep, if_neg hroom], rfl, ?_, by omega⟩
    rw [hused, List.take_append_of_le_length (by rw [List.length_map]; omega)]

theorem echoLoop_spec {fuel : ℕ} {stream : List ReadAnswer} {outputBuf record : List Byte}
    {used : ℕ} (sent : List (List Byte)) (hfuel : answers stream < fuel)
    (hused : outputBuf.take used = (record.map rot13Char).take outputBuf.length)
    (hlen : used = min record.length outputBuf.length) :
    echoLoop fuel stream outputBuf used sent = .ok ⟨sent ++
      (records newline record (arriving false stream)).map
        (fun line => (line.map rot13Char).take outputBuf.length), endsInFailure stream⟩ := by
  induction fuel generalizing stream outputBuf record used sent with
  | zero => cases hfuel
  | succ fuel ih =>
    rcases read_arriving false stream Nat.one_pos with ⟨c, bytes, stream', hread, harriving⟩ |
      ⟨stream', hread, harriving⟩ | ⟨errno, stream', rfl⟩
    · have hbytes : bytes = [] := by
        have := length_read hread
        rw [List.length_cons] at this
        exact List.eq_nil_of_length_eq_zero (by omega)
      have hfuel' : answers stream' < fuel := by
        have := answers_offered hread
        omega
      obtain ⟨outputBuf', used', hkeep, hlength, htake, hused'⟩ := keep_eq c hused hlen
      rw [endsInFailure_read hread, harriving, hbytes, List.singleton_append, records]
      simp only [echoLoop, hread, hkeep, ok_bind]
      rw [← hlength] at htake hused' ⊢
      split_ifs with hc
      · -- the line is complete
        have hfetch : fetch outputBuf' (0 : ℕ) used' = .ok (outputBuf'.take used') :=
          fetch_natCast outputBuf' (by omega)
        have hnext : echoLoop fuel stream' outputBuf' 0 (sent ++ [outputBuf'.take used']) =
            .ok ⟨sent ++ [outputBuf'.take used'] ++ (records newline [] (arriving false stream')).map
              (fun line => (line.map rot13Char).take outputBuf'.length), endsInFailure stream'⟩ :=
          ih _ hfuel' (by simp) (by simp)
        rw [Nat.cast_zero] at hfetch
        rw [hfetch, ok_bind, hnext, htake, hc, List.map_cons, List.append_assoc,
          List.singleton_append]
      · exact ih sent hfuel' htake hused'
    · rw [harriving, endsInFailure_end hread, records, List.map_nil, List.append_nil]
      simp only [echoLoop, hread]
    · simp [echoLoop, read, arriving, records, endsInFailure]

theorem answersTo_eq (size : ℕ) (bytes : List Byte) :
    answersTo size bytes = (records newline [] (bytes.map rot13Char)).map (·.take size) := by
  have hcode := records_map rot13Char_eq_newline_iff [] bytes
  rw [List.map_nil] at hcode
  rw [answersTo, hcode, List.map_map]
  rfl

/-- A client that decodes what it gets. -/
theorem decoded_iff (size : ℕ) (bytes : List Byte) :
    (records newline [] (answersTo size bytes).flatten).map (·.map rot13Char) =
        records newline [] bytes ↔
      ∀ line ∈ records newline [] bytes, line.length ≤ size := by
  have hcode := records_map rot13Char_eq_newline_iff [] bytes
  rw [List.map_nil] at hcode
  have hinvolutive : Function.Involutive (List.map (List.map rot13Char)) := by
    intro lines
    simp [Function.comp_def, rot13Char_rot13Char]
  have hends : ∀ line ∈ records newline [] (bytes.map rot13Char), Terminated newline line :=
    fun line hline => terminated_of_mem List.not_mem_nil hline
  rw [hinvolutive.eq_iff, ← hcode, answersTo_eq, records_take_iff hends, hcode, List.forall_mem_map]
  simp only [List.length_map]

/-- Each client is sent its lines, encoded and cut to the size of the buffer, and nothing of
what comes after its last line; only `loop_echo` ends the process when a call fails. A client
that decodes what it gets finds its lines again exactly if all of them fit. -/
theorem line_echo (fill : ℕ → Byte) (stream : List ReadAnswer) :
    childRun fill stream = .ok ⟨answersTo maxLine (arriving false stream), false⟩ ∧
      loopEcho fill stream =
        .ok ⟨answersTo (maxLine + 1) (arriving false stream), endsInFailure stream⟩ ∧
      ∀ size, (records newline [] (answersTo size (arriving false stream)).flatten).map
          (·.map rot13Char) = records newline [] (arriving false stream) ↔
        ∀ line ∈ records newline [] (arriving false stream), line.length ≤ size := by
  have hloop : ∀ size, echoLoop (answers stream + 1) stream ((List.range size).map fill) 0 [] =
      .ok ⟨answersTo size (arriving false stream), endsInFailure stream⟩ := by
    intro size
    have hlen : ((List.range size).map fill).length = size := by simp
    have hspec : echoLoop (answers stream + 1) stream ((List.range size).map fill) 0 [] =
        .ok ⟨[] ++ (records newline [] (arriving false stream)).map fun line =>
          (line.map rot13Char).take ((List.range size).map fill).length, endsInFailure stream⟩ :=
      echoLoop_spec [] (Nat.lt_succ_self _) (by simp) (by simp)
    rw [hspec, hlen, List.nil_append, answersTo]
  refine ⟨?_, ?_, fun size => decoded_iff size _⟩
  · simp only [childRun, hloop, ok_bind]
  · simp only [loopEcho, hloop, ok_bind]

end OsProgramming.Stream.LineEcho
