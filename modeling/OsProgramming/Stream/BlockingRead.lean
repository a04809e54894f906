import OsProgramming.Reactor.Socket

/-! Reads from a stream socket that blocks. What the kernel will answer is a list of
failures and of bytes that arrive together; a call takes what it has room for, and
where the list ends, so does the stream. -/

namespace OsProgramming.Stream

open Library Reactor

/-- `read` and `recv` with room for `n` bytes: the answer, and what is left. -/
def read (n : ℕ) : List ReadAnswer → ReadAnswer × List ReadAnswer
  | [] => (.offered [], [])
  | .failed errno :: stream => (.failed errno, stream)
  | .offered bytes :: stream =>
    (.offered (bytes.take n),
      if bytes.length ≤ n then stream else .offered (bytes.drop n) :: stream)

/-- The bytes that are still to come. -/
def pending : List ReadAnswer → List Byte
  | [] => []
  | .failed _ :: stream => pending stream
  | .offered bytes :: stream => bytes ++ pending stream

/-- The bytes that arrive before a call fails or finds the end. With `restarts`, a call that
is interrupted is made again. -/
def arriving (restarts : Bool) : List ReadAnswer → List Byte
  | [] => []
  | .failed errno :: stream => if restarts ∧ errno = .eintr then arriving restarts stream else []
  | .offered bytes :: stream => if bytes = [] then [] else bytes ++ arriving restarts stream

/-- Calls are interrupted at most, and the stream ends where the list does. -/
def Steady (stream : List ReadAnswer) : Prop :=
  ∀ answer ∈ stream, answer = .failed .eintr ∨ ∃ bytes, bytes ≠ [] ∧ answer = .offered bytes

/-- The number of calls that a stream can answer. -/
def answers : List ReadAnswer → ℕ
  | [] => 0
  | .failed _ :: stream => answers stream + 1
  | .offered bytes :: stream => answers stream + bytes.length

theorem pending_append (stream rest : List ReadAnswer) :
    pending (stream ++ rest) = pending stream ++ pending rest := by
  induction stream with
  | nil => rfl
  | cons answer stream ih => cases answer <;> simp [pending, ih]

theorem length_read {n : ℕ} {stream stream' : List ReadAnswer} {bytes : List Byte}
    (h : read n stream = (.offered bytes, stream')) : bytes.length ≤ n := by
  match stream with
  | [] =>
    cases h
    exact Nat.zero_le n
  | .failed _ :: _ => cases h
  | .offered arrived :: _ =>
    cases h
    exact List.length_take_le n arrived

theorem length_le_of_read {n : ℕ} {stream stream' : List ReadAnswer} {answer : ReadAnswer}
    (h : read n stream = (answer, stream')) : stream'.length ≤ stream.length := by
  match stream with
  | [] =>
    cases h
    exact le_rfl
  | .failed _ :: _ =>
    cases h
    exact Nat.le_succ _
  | .offered _ :: stream =>
    cases h
    split_ifs
    · exact Nat.le_succ _
    · exact le_rfl

/-- What a call does. -/
theorem read_arriving (restarts : Bool) (stream : List ReadAnswer) {n : ℕ} (hn : 0 < n) :
    (∃ byte bytes stream', read n stream = (.offered (byte :: bytes), stream') ∧
        arriving restarts stream = byte :: bytes ++ arriving restarts stream') ∨
      (∃ stream', read n stream = (.offered [], stream') ∧ arriving restarts stream = []) ∨
      ∃ errno stream', stream = .failed errno :: stream' := by
  match stream with
  | [] => exact .inr (.inl ⟨[], rfl, rfl⟩)
  | .failed errno :: stream => exact .inr (.inr ⟨errno, stream, rfl⟩)
  | .offered [] :: stream =>
    refine .inr (.inl ⟨stream, ?_, rfl⟩)
    simp [read]
  | .offered (byte :: bytes) :: stream =>
    obtain ⟨n, rfl⟩ : ∃ m, n = m + 1 := ⟨n - 1, by omega⟩
    refine .inl ⟨byte, bytes.take n, _, rfl, ?_⟩
    rw [arriving, if_neg (List.cons_ne_nil _ _)]
    split_ifs with hle
    · simp only [List.length_cons] at hle
      rw [List.take_of_length_le (by omega)]
    · simp only [List.length_cons] at hle
      have hrest : (byte :: bytes).drop (n + 1) ≠ [] := by
        rw [ne_eq, List.drop_eq_nil_iff, List.length_cons]
        omega
      rw [arriving, if_neg hrest, List.drop_succ_cons, List.cons_append, List.cons_append,
        ← List.append_assoc, List.take_append_drop]

theorem Steady.tail {answer : ReadAnswer} {stream : List ReadAnswer}
    (h : Steady (answer :: stream)) : Steady stream :=
  fun answer' hmem => h answer' (List.mem_cons_of_mem _ hmem)

theorem answers_failed {n : ℕ} {stream stream' : List ReadAnswer} {errno : Errno}
    (h : read n stream = (.failed errno, stream')) : answers stream' < answers stream := by
  match stream with
  | [] => cases h
  | .failed _ :: _ =>
    cases h
    exact Nat.lt_succ_self _
  | .offered _ :: _ => cases h

theorem answers_offered {n : ℕ} {stream stream' : List ReadAnswer} {byte : Byte}
    {bytes : List Byte} (h : read n stream = (.offered (byte :: bytes), stream')) :
    answers stream' < answers stream := by
  match stream with
  | [] => cases h
  | .failed _ :: _ => cases h
  | .offered arrived :: stream =>
    simp only [read, Prod.mk.injEq, ReadAnswer.offered.injEq] at h
    obtain ⟨htake, rfl⟩ := h
    have hpos : 0 < (arrived.take n).length := by rw [htake]; simp
    rw [List.length_take] at hpos
    split_ifs
    · simp only [answers]
      omega
    · simp only [answers, List.length_drop]
      omega

/-- What a call on a steady stream does. -/
theorem Steady.read_cases {stream : List ReadAnswer} (h : Steady stream) {n : ℕ} (hn : 0 < n) :
    (read n stream = (.offered [], []) ∧ stream = []) ∨
      (∃ stream', read n stream = (.failed .eintr, stream') ∧ Steady stream' ∧
        pending stream' = pending stream) ∨
      ∃ byte bytes stream', read n stream = (.offered (byte :: bytes), stream') ∧
        Steady stream' ∧ bytes.length < n ∧ pending stream = byte :: bytes ++ pending stream' := by
  match stream with
  | [] => exact .inl ⟨rfl, rfl⟩
  | .failed errno :: stream =>
    rcases h _ List.mem_cons_self with heq | ⟨bytes, -, heq⟩
    · cases heq
      exact .inr (.inl ⟨stream, rfl, h.tail, rfl⟩)
    · cases heq
  | .offered [] :: stream =>
    rcases h _ List.mem_cons_self with heq | ⟨bytes, hne, heq⟩
    · cases heq
    · cases heq
      exact absurd rfl hne
  | .offered (byte :: bytes) :: stream =>
    obtain ⟨n, rfl⟩ : ∃ m, n = m + 1 := ⟨n - 1, by omega⟩
    refine .inr (.inr ⟨byte, bytes.take n, _, rfl, ?_, by rw [List.length_take]; omega, ?_⟩)
    · split_ifs with hle
      · exact h.tail
      · intro answer hmem
        rcases List.mem_cons.mp hmem with rfl | hmem
        · refine .inr ⟨_, ?_, rfl⟩
          simp only [List.length_cons] at hle
          simp only [List.drop_succ_cons, ne_eq, List.drop_eq_nil_iff]
          omega
        · exact h.tail answer hmem
    · split_ifs with hle
      · simp only [List.length_cons] at hle
        rw [List.take_of_length_le (by omega), pending, List.cons_append]
      · simp [pending, ← List.append_assoc]

/-- No call fails. -/
def Uninterrupted (stream : List ReadAnswer) : Prop :=
  ∀ answer ∈ stream, ∃ bytes, bytes ≠ [] ∧ answer = .offered bytes

theorem Uninterrupted.steady {stream : List ReadAnswer} (h : Uninterrupted stream) :
    Steady stream :=
  fun answer hmem => .inr (h answer hmem)

theorem Uninterrupted.eq_nil {stream : List ReadAnswer} (h : Uninterrupted stream)
    (hend : pending stream = []) : stream = [] := by
  match stream with
  | [] => rfl
  | answer :: stream =>
    obtain ⟨bytes, hne, rfl⟩ := h answer List.mem_cons_self
    exact absurd (List.append_eq_nil_iff.mp hend).1 hne

theorem Uninterrupted.arriving_eq {stream : List ReadAnswer} (h : Uninterrupted stream)
    (restarts : Bool) : arriving restarts stream = pending stream := by
  induction stream with
  | nil => rfl
  | cons answer stream ih =>
    obtain ⟨bytes, hne, rfl⟩ := h answer List.mem_cons_self
    rw [arriving, if_neg hne, pending, ih fun answer hmem => h answer (List.mem_cons_of_mem _ hmem)]

theorem Uninterrupted.read_one {stream : List ReadAnswer} (h : Uninterrupted stream) {byte : Byte}
    {bytes : List Byte} (hbytes : pending stream = byte :: bytes) :
    ∃ stream', read 1 stream = (.offered [byte], stream') ∧ Uninterrupted stream' ∧
      pending stream' = bytes := by
  match stream with
  | [] => cases hbytes
  | answer :: stream =>
    obtain ⟨arrived, hne, rfl⟩ := h answer List.mem_cons_self
    have htail : Uninterrupted stream := fun answer hmem => h answer (List.mem_cons_of_mem _ hmem)
    match arrived with
    | [byte'] =>
      obtain ⟨rfl, rfl⟩ := List.cons.inj hbytes
      exact ⟨stream, rfl, htail, rfl⟩
    | byte' :: next :: arrived =>
      obtain ⟨rfl, rfl⟩ := List.cons.inj hbytes
      refine ⟨.offered (next :: arrived) :: stream, by simp [read], ?_, rfl⟩
      intro answer hmem
      rcases List.mem_cons.mp hmem with rfl | hmem
      · exact ⟨_, by simp, rfl⟩
      · exact htail answer hmem

end OsProgramming.Stream
