import OsProgramming.Library.Runs
import OsProgramming.Reactor.OutputPath

/-! When the application is told that its writes are completed. `handle_write` tells it after
every write that takes something, and `tcp_connection_send_data` never does. -/

namespace OsProgramming.Reactor

open Library

variable {cast : ChannelData → Result LoopId}

/-! ### What a call moves -/

section

variable {c : TcpConnection} {data : List Byte} {n : ℕ} {socket : WriteAnswer} {answer : Alloc Byte}
  {effect : Effect} {result : ℤ}

theorem directlyTaken_append_queue (hwf : c.outputBuffer.WellFormed) (bytes : List Byte)
    (socket : WriteAnswer) :
    directlyTaken c bytes socket = [] ∨ c.outputBuffer.readable = [] := by
  by_cases hdirect : WritesDirectly c
  · exact .inr (hwf.readableSize_eq_zero.mp hdirect.2)
  · exact .inl (if_neg hdirect)

/-- Whatever the cast does, a send that returns has given what the direct write takes to the
socket, and the rest to the queue. -/
theorem sendData_moves (hwf : c.outputBuffer.WellFormed) (hfault : ¬ SendFaults c socket)
    (hn : n ≤ data.length) (hmax : (n : ℤ) ≤ intMax)
    (hserved : RoomServed c.outputBuffer
      ((n : ℤ) - (directlyTaken c (data.take n) socket).length) answer)
    (hret : tcpConnectionSendData cast c data n socket answer = .ok (effect, result)) :
    effect.connection.outputBuffer.WellFormed ∧
      effect.connection.stream.accepted =
        c.stream.accepted ++ directlyTaken c (data.take n) socket ∧
      effect.connection.outputBuffer.readable = c.outputBuffer.readable ++
        (data.take n).drop (directlyTaken c (data.take n) socket).length := by
  have hdirect := directWrite_eq c data socket hn
  rw [decide_eq_false hfault] at hdirect
  set taken := directlyTaken c (data.take n) socket
  simp only [tcpConnectionSendData, hdirect, ok_bind] at hret
  obtain ⟨effect', hrest, hret⟩ := bind_eq_ok.mp hret
  cases hret
  rcases Nat.lt_or_ge taken.length n with hlt | hge
  · obtain ⟨b, hwf', hread, heq⟩ := @bufferRest_eq cast { c with
      stream := { c.stream with accepted := c.stream.accepted ++ taken } } data n _ answer hwf hlt
        hn hmax hserved
    rw [heq] at hrest
    split_ifs at hrest
    · cases hrest
      exact ⟨hwf', rfl, hread⟩
    · obtain ⟨_, -, hrest⟩ := bind_eq_ok.mp hrest
      cases hrest
      exact ⟨hwf', rfl, hread⟩
  · rw [bufferRest_skips cast _ _ answer (.inr (by omega))] at hrest
    cases hrest
    refine ⟨hwf, rfl, ?_⟩
    rw [List.drop_of_length_le ((List.length_take_le _ _).trans hge), List.append_nil]

end

/-! ### Runs -/

/-- A connection, and what was queued at each call of `on_write_completed`. -/
structure WriteRun where
  output : OutputRun
  completed : List (List Byte)

/-- The callback is the last act of `handle_write`, so what it sends are the next events. -/
inductive WriteEvent where
  | send (call : SendCall)
  | writable (socket : WriteAnswer)

namespace WriteRun

/-- A connection that has just been created. -/
def start (connection : TcpConnection) : WriteRun := ⟨⟨connection, [], []⟩, []⟩

def step (cast : ChannelData → Result LoopId) (s : WriteRun) : WriteEvent → Result WriteRun
  | .send call => do
    let output ← s.output.send cast call
    .ok { s with output }
  | .writable socket => do
    let effect ← handleWrite cast s.output.connection socket
    .ok ⟨{ s.output with connection := effect.connection, posts := s.output.posts ++ effect.posts },
      if effect.callback = some .onWriteCompleted then
        s.completed ++ [effect.connection.outputBuffer.readable]
      else s.completed⟩

def Admitted (s : WriteRun) : WriteEvent → Prop
  | .send call => call.Admitted s.output
  | .writable _ => True

def accepted (s : WriteRun) : List Byte := s.output.connection.stream.accepted

def queue (s : WriteRun) : List Byte := s.output.connection.outputBuffer.readable

def Notifies (s : WriteRun) : Prop := s.output.connection.callbacks.onWriteCompleted = true

instance (s : WriteRun) : Decidable s.Notifies := inferInstanceAs (Decidable (_ = true))

/-- When the last byte that has been handed over reaches the socket, the application is told
so once, with nothing queued; otherwise it is told nothing. -/
def NotifiesCompletion (s : WriteRun) (_ : WriteEvent) (s' : WriteRun) : Prop :=
  s'.completed = s.completed ++
    if s.Notifies ∧ s.accepted ≠ s'.output.handed ∧ s'.accepted = s'.output.handed then [[]] else []

/-- No send is written at once to its end, and no write from the queue is cut short. -/
def CompletesLate (s : WriteRun) : WriteEvent → Prop
  | .send call => s.Notifies → call.bytes ≠ [] →
    directlyTaken s.output.connection call.bytes call.socket ≠ call.bytes
  | .writable socket => s.Notifies → socket.taken s.queue = [] ∨ socket.taken s.queue = s.queue

instance (s s' : WriteRun) (event : WriteEvent) : Decidable (s.NotifiesCompletion event s') :=
  inferInstanceAs (Decidable (_ = _))

instance (s : WriteRun) : (event : WriteEvent) → Decidable (s.CompletesLate event)
  | .send _ => inferInstanceAs (Decidable (_ → _))
  | .writable _ => inferInstanceAs (Decidable (_ → _))

structure Inv (s : WriteRun) : Prop where
  wellFormed : s.output.connection.outputBuffer.WellFormed
  queued : s.accepted ++ s.queue = s.output.handed

variable {s s' : WriteRun} {event : WriteEvent}

/-- A send moves its bytes, or is reset. -/
theorem send_moves {call : SendCall} (h : s.Inv) (hadm : call.Admitted s.output)
    (hret : s.step cast (.send call) = .ok s') :
    s'.completed = s.completed ∧ s'.Inv ∧
      if SendFaults s.output.connection call.socket then
        s'.accepted = s.accepted ∧ s'.output.handed = s.output.handed
      else s'.accepted = s.accepted ++ directlyTaken s.output.connection call.bytes call.socket ∧
        s'.output.handed = s.output.handed ++ call.bytes := by
  obtain ⟨data, size, socket, answer⟩ := call
  obtain ⟨h0, hlen, hmax, hserved⟩ := hadm
  obtain ⟨n, rfl⟩ : ∃ n : ℕ, size = n := ⟨size.toNat, by simp only at h0; omega⟩
  have hn : n ≤ data.length := by simp only at hlen; omega
  obtain ⟨output, hsend, hret⟩ := bind_eq_ok.mp hret
  obtain ⟨⟨effect, result⟩, hdata, hsend⟩ := bind_eq_ok.mp hsend
  cases hret
  cases hsend
  split_ifs with hfault
  · rw [sendData_of_faults cast answer hfault hn] at hdata
    cases hdata
    exact ⟨rfl, ⟨h.wellFormed, h.queued⟩, rfl, rfl⟩
  · obtain ⟨hwf, haccepted, hread⟩ :=
      sendData_moves h.wellFormed hfault hn hmax (hserved hfault) hdata
    refine ⟨rfl, ⟨hwf, ?_⟩, haccepted, rfl⟩
    show effect.connection.stream.accepted ++ effect.connection.outputBuffer.readable =
      s.output.handed ++ data.take n
    rw [haccepted, hread, ← h.queued]
    have hsplit := directlyTaken_append_drop s.output.connection (data.take n) socket
    rcases directlyTaken_append_queue h.wellFormed (data.take n) socket with hnil | hempty
    · simp [accepted, queue, hnil]
    · simp [accepted, queue, hempty, hsplit]

/-- A writable event moves what the socket takes, and tells the application of what is left. -/
theorem writable_moves {socket : WriteAnswer} (h : s.Inv)
    (hret : s.step cast (.writable socket) = .ok s') :
    s'.Inv ∧ s'.accepted = s.accepted ++ socket.taken s.queue ∧
      s'.output.handed = s.output.handed ∧
      s'.completed = s.completed ++ if s.Notifies ∧ socket.taken s.queue ≠ [] then
        [s.queue.drop (socket.taken s.queue).length] else [] := by
  obtain ⟨effect, hwrite, hret⟩ := bind_eq_ok.mp hret
  cases hret
  obtain ⟨hwf, haccepted, hread, hcallback⟩ := handleWrite_moves h.wellFormed hwrite
  refine ⟨⟨hwf, ?_⟩, haccepted, rfl, ?_⟩
  · show effect.connection.stream.accepted ++ effect.connection.outputBuffer.readable =
      s.output.handed
    rw [haccepted, hread, List.append_assoc, ← h.queued]
    exact congrArg (s.accepted ++ ·) (socket.taken_append_drop s.queue)
  · have hcalled : effect.callback = some .onWriteCompleted ↔
        s.Notifies ∧ socket.taken s.queue ≠ [] := hcallback
    dsimp only
    by_cases hcall : effect.callback = some .onWriteCompleted
    · rw [if_pos hcall, if_pos (hcalled.mp hcall), hread]
      rfl
    · rw [if_neg hcall, if_neg (mt hcalled.mpr hcall), List.append_nil]

theorem writable_returns {loop : LoopId} (h : s.Inv) (socket : WriteAnswer)
    (hcast : cast s.output.connection.channel.data = .ok loop) :
    ∃ s', s.step cast (.writable socket) = .ok s' := by
  obtain ⟨effect, hwrite, -⟩ := handleWrite_returns socket h.wellFormed hcast
  rw [step, hwrite]
  exact ⟨_, rfl⟩

theorem send_notifies_iff {call : SendCall} (h : s.Inv) (hadm : call.Admitted s.output)
    (hret : s.step cast (.send call) = .ok s') :
    s.NotifiesCompletion (.send call) s' ↔ s.CompletesLate (.send call) := by
  obtain ⟨hcompleted, -, hmoves⟩ := send_moves h hadm hret
  have hcompletes : (s.accepted ≠ s'.output.handed ∧ s'.accepted = s'.output.handed) ↔
      call.bytes ≠ [] ∧ directlyTaken s.output.connection call.bytes call.socket = call.bytes := by
    split_ifs at hmoves with hfault
    · rw [hmoves.1, hmoves.2, directlyTaken_of_faults call.bytes hfault]
      refine iff_of_false ?_ ?_
      · rintro ⟨hne, heq⟩
        exact hne heq
      · rintro ⟨hne, heq⟩
        exact hne heq.symm
    · rw [hmoves.1, hmoves.2, ← h.queued, List.append_assoc, List.append_cancel_left_eq, ne_eq,
        List.self_eq_append_right]
      rcases directlyTaken_append_queue h.wellFormed call.bytes call.socket with hnil | hempty
      · rw [hnil]
        refine iff_of_false ?_ ?_
        · rintro ⟨hne, heq⟩
          exact hne heq.symm
        · rintro ⟨hne, heq⟩
          exact hne heq.symm
      · rw [show s.queue = [] from hempty, List.nil_append]
  simp only [NotifiesCompletion, CompletesLate, hcompleted, hcompletes, List.self_eq_append_right,
    ite_eq_right_iff, List.cons_ne_nil, imp_false, not_and, ne_eq]

theorem writable_notifies_iff {socket : WriteAnswer} (h : s.Inv)
    (hret : s.step cast (.writable socket) = .ok s') :
    s.NotifiesCompletion (.writable socket) s' ↔ s.CompletesLate (.writable socket) := by
  obtain ⟨-, haccepted, hhanded, hcompleted⟩ := writable_moves h hret
  have hcompletes : (s.accepted ≠ s'.output.handed ∧ s'.accepted = s'.output.handed) ↔
      s.queue ≠ [] ∧ socket.taken s.queue = s.queue := by
    rw [haccepted, hhanded, ← h.queued, ne_eq, List.self_eq_append_right]
    exact and_congr_right fun _ => List.append_right_inj s.accepted
  rw [NotifiesCompletion, hcompleted, List.append_cancel_left_eq, if_congr (and_congr_right fun _ =>
    hcompletes) rfl rfl, CompletesLate]
  by_cases hnotifies : s.Notifies
  · rcases eq_or_ne (socket.taken s.queue) [] with hnil | hsome
    · simp [hnil]
    · rcases eq_or_ne (socket.taken s.queue) s.queue with hall | hshort
      · have hne : s.queue ≠ [] := hall ▸ hsome
        simp [hnotifies, hall, hne]
      · simp [hnotifies, hsome, hshort]
  · simp [hnotifies]

theorem step_inv (h : s.Inv) (hadm : s.Admitted event) (hret : s.step cast event = .ok s') :
    s'.Inv := by
  cases event with
  | send call => exact (send_moves h hadm hret).2.1
  | writable socket => exact (writable_moves h hret).1

theorem step_notifies_iff (h : s.Inv) (hadm : s.Admitted event)
    (hret : s.step cast event = .ok s') :
    s.NotifiesCompletion event s' ↔ s.CompletesLate event := by
  cases event with
  | send call => exact send_notifies_iff h hadm hret
  | writable socket => exact writable_notifies_iff h hret

/-- The application is told of every completion, and of nothing else, if and only if every
completion is that of a write from the queue and no such write is cut short. -/
theorem write_completed_iff (cast : ChannelData → Result LoopId) {id : ConnectionId} {fd : ℤ}
    {loop : LoopId} {callbacks : Callbacks} {input output : ℕ → Byte} {c₀ : TcpConnection}
    (hnew : tcpConnectionNew id fd loop callbacks (some input) (some output) = some c₀)
    {events : List WriteEvent} (hadm : Admissible (step cast) Admitted (start c₀) events)
    (hrun : events.foldlM (step cast) (start c₀) = .ok s) :
    EachStep (step cast) NotifiesCompletion (start c₀) events ↔
      Admissible (step cast) CompletesLate (start c₀) events := by
  have hinit : (start c₀).Inv := ⟨(outputInv_new hnew).1.wellFormed, (outputInv_new hnew).1.queued⟩
  have hstep : ∀ (s : WriteRun) event s', s.Inv → s.Admitted event → s.CompletesLate event →
      s.step cast event = .ok s' → s'.Inv := fun _ _ _ hs hadm _ hret => step_inv hs hadm hret
  exact eachStep_iff_of_admissible hstep (fun _ _ _ => step_notifies_iff) hinit hadm hrun

/-- A connection with all four callbacks. -/
def freshConnection : TcpConnection :=
  (tcpConnectionNew 0 5 0 ⟨true, true, true, true⟩ (some fun _ => 0) (some fun _ => 0)).get rfl

def sendThree (room : ℕ) : WriteEvent := .send ⟨[1, 2, 3], 3, .accepts room, none⟩

theorem freshConnection_new : tcpConnectionNew 0 5 0 ⟨true, true, true, true⟩ (some fun _ => 0)
    (some fun _ => 0) = some freshConnection := rfl

theorem outputInv_fresh : OutputInv freshConnection [] ∧
    bufferWriteableSize freshConnection.outputBuffer = initBufferSize := by
  obtain ⟨hout, -, -, -, hroom, -⟩ := outputInv_new freshConnection_new
  exact ⟨hout, hroom⟩

/-- After a send of which the socket takes one byte the other two are queued. -/
theorem sendThree_one :
    Admitted (start freshConnection) (sendThree 1) ∧
    ∃ s, (start freshConnection).step (fun _ => .ok 0) (sendThree 1) = .ok s ∧
      s.Inv ∧ s.Notifies ∧ s.completed = [] ∧ s.queue = [2, 3] := by
  have hinv : (start freshConnection).Inv :=
    ⟨outputInv_fresh.1.wellFormed, outputInv_fresh.1.queued⟩
  have hadm : SendCall.Admitted ⟨freshConnection, [], []⟩ ⟨[1, 2, 3], 3, .accepts 1, none⟩ := by
    refine ⟨by decide, by decide, by decide, fun _ => roomServed_of_le none ?_⟩
    show (3 : ℤ) - _ ≤ bufferWriteableSize freshConnection.outputBuffer
    rw [outputInv_fresh.2]
    unfold initBufferSize
    omega
  obtain ⟨output, hsend, hout⟩ : ∃ output,
      OutputRun.send (fun _ => .ok 0) ⟨freshConnection, [], []⟩
        ⟨[1, 2, 3], 3, .accepts 1, none⟩ = .ok output ∧ output.Inv freshConnection :=
    OutputRun.send_inv rfl _ _ ⟨outputInv_fresh.1, OutputOnly.refl freshConnection⟩ hadm
  have hret : (start freshConnection).step (fun _ => .ok 0) (sendThree 1) = .ok ⟨output, []⟩ := by
    rw [sendThree, step, start, hsend]
    rfl
  obtain ⟨hcompleted, hinv', hmoves⟩ := send_moves hinv hadm hret
  have hfault : ¬ SendFaults freshConnection (.accepts 1) := by decide
  have htaken : directlyTaken freshConnection [1, 2, 3] (.accepts 1) = [1] := by decide
  obtain ⟨haccepted, hhanded⟩ := (if_neg hfault).mp hmoves
  refine ⟨hadm, _, hret, hinv', ?_, hcompleted, ?_⟩
  · rw [Notifies, hout.only.callbacks]
    rfl
  · have hqueued := hinv'.queued
    rw [haccepted, hhanded] at hqueued
    change directlyTaken freshConnection [1, 2, 3] (.accepts 1) ++ _ = [1, 2, 3] at hqueued
    rw [htaken] at hqueued
    exact List.append_cancel_left hqueued

/-- Three bytes are sent. If the socket takes all of them at once, the application is not told
so; if it takes them one by one, the application is told so while the last one is queued. -/
theorem write_completed_missed :
    (∃ s', (start freshConnection).step (fun _ => .ok 0) (sendThree 5) = .ok s' ∧
      s'.completed = [] ∧ ¬ (start freshConnection).NotifiesCompletion (sendThree 5) s') ∧
    ∃ s, (start freshConnection).step (fun _ => .ok 0) (sendThree 1) = .ok s ∧
      ∃ s', s.step (fun _ => .ok 0) (.writable (.accepts 1)) = .ok s' ∧ s'.completed = [[3]] ∧
        ¬ s.NotifiesCompletion (.writable (.accepts 1)) s' := by
  refine ⟨exists_ok_of_any (by decide +kernel), ?_⟩
  obtain ⟨-, s, hs, hinv, hnotifies, hnone, hqueue⟩ := sendThree_one
  obtain ⟨s', hret⟩ : ∃ s', s.step (fun _ => .ok 0) (.writable (.accepts 1)) = .ok s' :=
    writable_returns hinv (.accepts 1) rfl
  have hcompleted := (writable_moves hinv hret).2.2.2
  rw [hnone, hqueue, if_pos ⟨hnotifies, by decide⟩] at hcompleted
  refine ⟨s, hs, s', hret, hcompleted, ?_⟩
  rw [NotifiesCompletion, hcompleted, hnone]
  split_ifs <;> decide

/-- The socket takes one byte at once, and then the other two. -/
theorem write_completed_rest :
    ∃ s, [sendThree 1, .writable (.accepts 5)].foldlM (step fun _ => .ok 0)
        (start freshConnection) = .ok s ∧ s.completed = [[]] ∧
      EachStep (step fun _ => .ok 0) NotifiesCompletion (start freshConnection)
        [sendThree 1, .writable (.accepts 5)] := by
  obtain ⟨hadm, s, hs, hinv, hnotifies, hnone, hqueue⟩ := sendThree_one
  obtain ⟨s', hret⟩ : ∃ s', s.step (fun _ => .ok 0) (.writable (.accepts 5)) = .ok s' :=
    writable_returns hinv (.accepts 5) rfl
  have hrun : [sendThree 1, .writable (.accepts 5)].foldlM (step fun _ => .ok 0)
      (start freshConnection) = .ok s' := by
    rw [List.foldlM_cons, hs, ok_bind, List.foldlM_cons, hret]
    rfl
  have hcompleted := (writable_moves hinv hret).2.2.2
  rw [hnone, hqueue, if_pos ⟨hnotifies, by decide⟩] at hcompleted
  have hadmitted : Admissible (step fun _ => .ok 0) Admitted (start freshConnection)
      [sendThree 1, .writable (.accepts 5)] :=
    ⟨hadm, fun _ _ => ⟨trivial, fun _ _ => trivial⟩⟩
  refine ⟨s', hrun, hcompleted, ?_⟩
  refine (write_completed_iff (fun _ => .ok 0) freshConnection_new hadmitted hrun).mpr
    ⟨by decide, fun s₁ hs₁ => ⟨fun _ => .inr ?_, fun _ _ => trivial⟩⟩
  rw [hs] at hs₁
  cases hs₁
  rw [hqueue]
  decide

end WriteRun

end OsProgramming.Reactor
