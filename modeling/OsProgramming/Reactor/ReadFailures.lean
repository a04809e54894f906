import OsProgramming.Reactor.ClientDescriptors

/-! Which reads close a connection. `buffer_socket_read` returns -1 for every error, and
`handle_read` takes all that is not positive for the end of the stream. -/

namespace OsProgramming.Reactor

open Library

/-- The read may be tried again. -/
def ReadAnswer.Transient : ReadAnswer → Prop
  | .failed errno => errno = .ewouldblock ∨ errno = .eintr
  | .offered _ => False

instance (answer : ReadAnswer) : Decidable answer.Transient :=
  match answer with
  | .failed _ => inferInstanceAs (Decidable (_ ∨ _))
  | .offered _ => .isFalse id

/-- The stream is at its end, or is broken. -/
def ReadAnswer.Final (answer : ReadAnswer) : Prop := answer.Ends ∧ ¬ answer.Transient

instance (answer : ReadAnswer) : Decidable answer.Final := inferInstanceAs (Decidable (_ ∧ _))

theorem ReadAnswer.Transient.ends {answer : ReadAnswer} (h : answer.Transient) : answer.Ends := by
  cases answer with
  | failed errno => trivial
  | offered bytes => exact h.elim

namespace Process

variable {δ π ρ : Type} {S : Server δ π ρ} {s s' : Process δ π} {event : LoopId × Answers ρ}

/-- The connection that the thread is about to call `handle_read` for. -/
def reader (s : Process δ π) (t : LoopId) : Option ConnectionId :=
  match (s.threads t).work, (s.threads t).handler with
  | [], some (.readable (.connection id)) => some id
  | _, _ => none

/-- `handle_connection_closed` runs for the connection whose stream is at its end or broken,
and for no other; after a read that may be tried again all is as before the handler. -/
structure ClosesForReason (s : Process δ π) (event : LoopId × Answers ρ) (s' : Process δ π) :
    Prop where
  closed : s'.closed = s.closed ++ if event.2.read.Final then (s.reader event.1).toList else []
  transient : s.reader event.1 ≠ none → event.2.read.Transient → s' = s.goto event.1 [] none

/-- No read of a connection fails only for the moment. -/
def ReadsOrEnds (s : Process δ π) (event : LoopId × Answers ρ) : Prop :=
  s.reader event.1 ≠ none → ¬ event.2.read.Transient

instance (s : Process δ π) (event : LoopId × Answers ρ) : Decidable (s.ReadsOrEnds event) :=
  inferInstanceAs (Decidable (_ → _))

/-- Every answer that is not positive closes the connection. -/
theorem outcome_closed (s : Process δ π) (t : LoopId) (a : Answers ρ) (id : ConnectionId) :
    (s.descriptors.after id (s.outcome S (t, a))).closed =
      s.closed ++ if a.read.Ends then (s.reader t).toList else [] := by
  unfold Process.outcome reader
  dsimp only
  cases hwork : (s.threads t).work with
  | cons instr work => simp [Descriptors.after, descriptors]
  | nil =>
    cases hhandler : (s.threads t).handler with
    | none =>
      rcases passOutcome_cases (S := S) s t with heq | ⟨fd, heq⟩ <;>
        simp [heq, Descriptors.after, descriptors]
    | some handler =>
      cases handler with
      | readable channel =>
        cases channel with
        | wakeup => simp [handlerOutcome, Descriptors.after, descriptors]
        | acceptor =>
          dsimp only [handlerOutcome]
          split_ifs <;> simp [Descriptors.after, descriptors]
        | connection id =>
          dsimp only [handlerOutcome]
          split_ifs <;> simp [Descriptors.after, descriptors]
      | writeable channel => simp [handlerOutcome, Descriptors.after, descriptors]
      | invoke id callback => simp [handlerOutcome, Descriptors.after, descriptors]

theorem closesForReason_iff (h : s.Regular) (hret : s.step S event = .ok s') :
    s.ClosesForReason event s' ↔ s.ReadsOrEnds event := by
  obtain ⟨t, a⟩ := event
  obtain ⟨hsound, stage, hinv⟩ := h
  have hclosed : s'.closed = s.closed ++ if a.read.Ends then (s.reader t).toList else [] := by
    rw [← outcome_closed (S := S) s t a s.created, ← step_descriptors hsound hinv hret]
    rfl
  constructor
  · intro hreason hreader htransient
    obtain ⟨id, hid⟩ := Option.ne_none_iff_exists'.mp hreader
    have hkept := hreason.closed
    rw [hclosed, if_pos htransient.ends, if_neg (fun hfinal => hfinal.2 htransient), hid] at hkept
    simp at hkept
  · intro hends
    refine ⟨?_, fun hreader htransient => absurd htransient (hends hreader)⟩
    rw [hclosed]
    cases hid : s.reader t with
    | none => simp
    | some id =>
      have hfinal : a.read.Final ↔ a.read.Ends :=
        and_iff_left (hends (by simp [hid]))
      simp only [hfinal]

theorem eachStep_closesForReason_iff (h : s.Regular) {events : List (LoopId × Answers ρ)}
    (hrun : events.foldlM (step S) s = .ok s') :
    EachStep (step S) ClosesForReason s events ↔ Admissible (step S) ReadsOrEnds s events := by
  have hstep : ∀ (s : Process δ π) event s', s.Regular → s.ReadsOrEnds event →
      step S s event = .ok s' → s'.Regular := fun _ _ _ hs _ hret => hs.step hret
  exact eachStep_iff hstep (fun _ _ _ => closesForReason_iff) h hrun

/-- The steps of a run close the connections that they have a reason to close if and only if no
read of a connection fails only for the moment. -/
theorem connections_closed_for_reason_iff (S : Server δ π ρ) (data : LoopId → δ)
    (connections : ConnectionId → TcpConnection) (isOpen : ℤ → Bool)
    {events : List (LoopId × Answers ρ)}
    (hrun : events.foldlM (step S) (init data connections isOpen) = .ok s) :
    EachStep (step S) ClosesForReason (init data connections isOpen) events ↔
      Admissible (step S) ReadsOrEnds (init data connections isOpen) events :=
  eachStep_closesForReason_iff (regular_init data connections isOpen) hrun

/-- The socket of the accepted client is reported, and `answer` is that to the read. -/
def readRun (answer : ReadAnswer) : List (LoopId × Answers (List EpollEvent)) :=
  (resetRun []).map fun event => (event.1, { event.2 with read := answer })

/-- The read would block, and the application is told that the connection is closed. -/
theorem closes_for_transient_read :
    ∃ s, (readRun (.failed .ewouldblock)).foldlM (step singleLoop) singleInit = .ok s ∧
      s.closed = [0] ∧ s.log = [(0, .onNewConnection), (0, .onConnectionClosed)] ∧
      ¬ EachStep (step singleLoop) ClosesForReason singleInit
        (readRun (.failed .ewouldblock)) := by
  obtain ⟨s, hs, hclosed, hlog⟩ :
      ∃ s, (readRun (.failed .ewouldblock)).foldlM (step singleLoop) singleInit = .ok s ∧
        s.closed = [0] ∧ s.log = [(0, .onNewConnection), (0, .onConnectionClosed)] :=
    exists_ok_of_any (by decide +kernel)
  refine ⟨s, hs, hclosed, hlog, ?_⟩
  have hiff := eachStep_closesForReason_iff (regular_init _ _ _) hs
  exact mt hiff.mp (by decide +kernel)

/-- The peer has closed its end. -/
theorem connections_closed_for_reason_end :
    ∃ s, (readRun (.offered [])).foldlM (step singleLoop) singleInit = .ok s ∧ s.closed = [0] ∧
      EachStep (step singleLoop) ClosesForReason singleInit (readRun (.offered [])) := by
  obtain ⟨s, hs, hclosed⟩ :
      ∃ s, (readRun (.offered [])).foldlM (step singleLoop) singleInit = .ok s ∧ s.closed = [0] :=
    exists_ok_of_any (by decide +kernel)
  exact ⟨s, hs, hclosed, (connections_closed_for_reason_iff singleLoop (fun _ _ => none)
    (fun _ => noConnection) (fun fd => decide (fd = 3 ∨ fd = 4)) hs).mpr (by decide +kernel)⟩

end Process

end OsProgramming.Reactor
