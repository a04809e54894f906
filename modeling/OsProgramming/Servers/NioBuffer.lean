import OsProgramming.Servers.Isolation

/-! The buffer of one client of `nio_server.c` under any sequence of calls of its two
handlers. A call may end anywhere, so what holds after each call holds inside of the calls
too. -/

namespace OsProgramming.Servers.NioServer

open Library Reactor

/-- The bytes `buffer[read_index .. write_index)`. -/
def Buffer.pending (buffer : Buffer) : List Byte :=
  (buffer.buffer.take buffer.writeIndex).drop buffer.readIndex

/-- The bytes that find `write_index` below the size of the buffer. -/
def storedFrom : ℕ → List Byte → List Byte
  | _, [] => []
  | writeIndex, c :: bytes =>
    if writeIndex < maxLine then c :: storedFrom (writeIndex + 1) bytes
    else storedFrom writeIndex bytes

inductive Call where
  | readable (answers : List ReadAnswer)
  | writeable (answers : List WriteAnswer)

/-- A buffer, with what has been received, stored and sent. -/
structure Account where
  buffer : Buffer
  received : List Byte
  stored : List Byte
  sent : List Byte

def Account.step (s : Account) : Call → Result Account
  | .readable answers => do
    let (buffer, received, _) ← onSocketReadable s.buffer answers
    .ok { s with
      buffer
      received := s.received ++ received
      stored := s.stored ++ storedFrom s.buffer.writeIndex received }
  | .writeable answers => do
    let (buffer, sent, _) ← onSocketWriteable s.buffer answers
    .ok { s with buffer, sent := s.sent ++ sent }

/-- The bytes that one call reads, up to an error or the end of the stream. -/
def delivered : List ReadAnswer → List Byte
  | [] => []
  | .failed _ :: _ => []
  | .offered bytes :: answers =>
    if bytes = [] then [] else bytes.take readSize ++ delivered answers

/-- The bytes that the socket has room for during one call, up to an error. -/
def roomFor : List WriteAnswer → ℕ
  | [] => 0
  | .failed _ :: _ => 0
  | .accepts room :: answers => room + roomFor answers

/-- What one call does to the account: all that there is to read has been received, and the
part of it that finds room is stored; of what is pending, as much as the socket takes is sent. -/
def Account.Follows (s : Account) : Call → Account → Prop
  | .readable answers, s' => s'.received = s.received ++ delivered answers ∧
    s'.stored = s.stored ++ storedFrom s.buffer.writeIndex (delivered answers) ∧
    s'.sent = s.sent
  | .writeable answers, s' => s'.received = s.received ∧ s'.stored = s.stored ∧
    s'.sent = s.sent ++ s.buffer.pending.take (roomFor answers)

/-! ### What is stored -/

theorem storedFrom_append (n : ℕ) (bytes more : List Byte) :
    storedFrom n (bytes ++ more) =
      storedFrom n bytes ++ storedFrom (n + (storedFrom n bytes).length) more := by
  induction bytes generalizing n with
  | nil => rfl
  | cons c bytes ih =>
    rw [List.cons_append, storedFrom, storedFrom]
    split_ifs
    · rw [ih, List.cons_append, List.length_cons, Nat.add_right_comm, Nat.add_assoc]
    · exact ih n

theorem storedFrom_sublist (n : ℕ) (bytes : List Byte) : (storedFrom n bytes).Sublist bytes := by
  induction bytes generalizing n with
  | nil => exact List.Sublist.refl _
  | cons c bytes ih =>
    rw [storedFrom]
    split_ifs
    · exact (ih (n + 1)).cons_cons c
    · exact (ih n).cons c

/-- The code of no other byte is that of the end of a line. -/
theorem rot13Char_eq_newline {c : Byte} (h : rot13Char c = '\n'.toUInt8) : c = '\n'.toUInt8 := by
  have hall : ∀ n : Fin 256, rot13Char (.ofFin n) = '\n'.toUInt8 →
      UInt8.ofFin n = '\n'.toUInt8 := by
    decide +kernel
  exact hall c.toFin h

namespace Client

variable {client : Client}

/-- The bytes that are still to be sent. -/
def pending (client : Client) : List Byte := client.written.drop client.readIndex

/-- What has been received and stored since the client was as it is in `client`. -/
structure Takes (client client' : Client) (bytes : List Byte) : Prop where
  received : client'.received = client.received ++ bytes
  written : client'.written =
    client.written ++ (storedFrom client.written.length bytes).map rot13Char
  readIndex : client'.readIndex = client.readIndex
  readable : client'.readable = true ↔ client.readable = true ∨ '\n'.toUInt8 ∈ bytes
  sent : client'.sent = client.sent

theorem Takes.refl (client : Client) : client.Takes client [] :=
  ⟨(List.append_nil _).symm, (List.append_nil _).symm, rfl, by simp, rfl⟩

theorem Takes.trans {client' client'' : Client} {bytes more : List Byte}
    (h : client.Takes client' bytes) (h' : client'.Takes client'' more) :
    client.Takes client'' (bytes ++ more) := by
  refine ⟨?_, ?_, h'.readIndex.trans h.readIndex, ?_, h'.sent.trans h.sent⟩
  · rw [h'.received, h.received, List.append_assoc]
  · rw [h'.written, h.written, storedFrom_append, List.map_append, List.append_assoc,
      List.length_append, List.length_map]
  · rw [h'.readable, h.readable, List.mem_append, or_assoc]

theorem takes_put (client : Client) (c : Byte) : client.Takes (client.put c) [c] := by
  refine ⟨rfl, ?_, rfl, ?_, rfl⟩
  · simp only [Client.put, storedFrom]
    split_ifs
    · rfl
    · exact (List.append_nil _).symm
  · simp only [Client.put, List.mem_singleton]
    split_ifs with hc
    · simp [hc]
    · simp [Ne.symm hc]

theorem takes_foldl_put (client : Client) (bytes : List Byte) :
    client.Takes (bytes.foldl Client.put client) bytes := by
  induction bytes generalizing client with
  | nil => exact .refl client
  | cons c bytes ih => exact (takes_put client c).trans (ih (client.put c))

theorem takes_receive (client : Client) (answers : List ReadAnswer) :
    client.Takes (client.receive answers).1 (delivered answers) := by
  induction answers generalizing client with
  | nil => exact .refl client
  | cons answer answers ih =>
    cases answer with
    | failed errno => exact .refl client
    | offered bytes =>
      rw [receive, delivered]
      split_ifs
      · exact .refl client
      · exact (takes_foldl_put client _).trans (ih ((bytes.take readSize).foldl put client))

/-- What has been sent since then: nothing is lost on the way, and the mark stays as long as
something is pending. -/
structure Gives (client client' : Client) : Prop where
  account : client'.sent ++ client'.pending = client.sent ++ client.pending
  suffix : client'.pending <:+ client.pending
  readable : client'.pending ≠ [] → client'.readable = client.readable

theorem gives_flushed (client : Client) : client.Gives client.flushed := by
  rw [flushed]
  split_ifs with hlt
  · exact ⟨rfl, List.suffix_rfl, fun _ => rfl⟩
  · have hnone : client.pending = [] := List.drop_of_length_le (not_lt.mp hlt)
    exact ⟨by rw [hnone]; rfl, List.nil_suffix, fun hne => absurd rfl hne⟩

theorem pending_skip (client : Client) (room : ℕ) :
    client.pending.take room ++ (client.skip room).pending = client.pending := by
  have hsplit := WriteAnswer.taken_append_drop (.accepts room) client.pending
  rwa [pending, List.drop_drop] at hsplit

theorem gives_skip (client : Client) (room : ℕ) : client.Gives (client.skip room) := by
  have hsplit := pending_skip client room
  refine ⟨?_, ⟨_, hsplit⟩, fun _ => rfl⟩
  rw [← hsplit, ← List.append_assoc]
  rfl

theorem Gives.trans {client' client'' : Client} (h : client.Gives client')
    (h' : client'.Gives client'') : client.Gives client'' := by
  refine ⟨h'.account.trans h.account, h'.suffix.trans h.suffix, ?_⟩
  intro hne
  rw [h'.readable hne, h.readable]
  intro hnone
  have hsuffix := h'.suffix
  rw [hnone] at hsuffix
  exact hne (List.suffix_nil.mp hsuffix)

theorem gives_transmit (h : client.Inv) (answers : List WriteAnswer) :
    client.Gives (client.transmit answers).1 := by
  induction answers generalizing client with
  | nil => exact gives_flushed client
  | cons answer answers ih =>
    simp only [transmit]
    split_ifs
    · cases answer with
      | failed errno => exact ⟨rfl, List.suffix_rfl, fun _ => rfl⟩
      | accepts room => exact (gives_skip client room).trans (ih (h.skip room))
    · exact gives_flushed client

theorem pending_nil (h : ¬ client.readIndex < client.written.length) : client.pending = [] :=
  List.drop_of_length_le (not_lt.mp h)

/-- A call sends what is pending, as far as there is room. -/
theorem sent_transmit (h : client.Inv) (answers : List WriteAnswer) :
    (client.transmit answers).1.sent = client.sent ++ client.pending.take (roomFor answers) := by
  have hflushed (client : Client) : client.flushed.sent = client.sent := by
    rw [flushed]
    split_ifs <;> rfl
  induction answers generalizing client with
  | nil => simp [transmit, roomFor, hflushed]
  | cons answer answers ih =>
    simp only [transmit]
    split_ifs with hlt
    · cases answer with
      | failed errno => simp [roomFor]
      | accepts room =>
        have hskip : (client.skip room).pending = client.pending.drop room :=
          List.append_cancel_left
            ((pending_skip client room).trans (List.take_append_drop room client.pending).symm)
        show ((client.skip room).transmit answers).1.sent = _
        rw [ih (h.skip room), hskip, roomFor, List.take_add, ← List.append_assoc]
        rfl
    · rw [pending_nil hlt, hflushed, List.take_nil, List.append_nil]

end Client

/-! ### The account -/

theorem Buffer.Holds.pending_eq {buffer : Buffer} {client : Client} (h : buffer.Holds client) :
    buffer.pending = client.pending := by
  rw [Buffer.pending, h.take_eq, h.readIndex_eq, Client.pending]

/-- The buffer is that of a client alone, what has been stored is sent or pending, and a line
that is pending is marked. -/
structure Account.Inv (s : Account) (client : Client) : Prop where
  holds : s.buffer.Holds client
  inv : client.Inv
  tidy : client.Tidy
  received : client.received = s.received
  sent : client.sent = s.sent
  stored : client.sent ++ client.pending = s.stored.map rot13Char
  marked : '\n'.toUInt8 ∈ client.pending → client.readable = true

theorem Account.inv_init (fill : ℕ → Byte) : Inv ⟨newBuffer fill, [], [], []⟩ .new where
  holds := newBuffer_holds fill
  inv := .new
  tidy := .new
  received := rfl
  sent := rfl
  stored := rfl
  marked := nofun

theorem Account.Inv.readable {s : Account} {client : Client} (h : s.Inv client)
    (answers : List ReadAnswer) :
    ∃ s', s.step (.readable answers) = .ok s' ∧ s'.Inv (client.receive answers).1 ∧
      s.Follows (.readable answers) s' := by
  obtain ⟨buffer', received, hread, hholds, -, hreceived, hsent⟩ :=
    onSocketReadable_ok h.holds answers
  have htakes := Client.takes_receive client answers
  obtain rfl : delivered answers = received := by
    rw [htakes.received] at hreceived
    exact List.append_cancel_left hreceived
  obtain ⟨hinv, htidy⟩ := Client.receive_inv ⟨h.inv, h.tidy⟩ answers
  have hpending : (client.receive answers).1.pending =
      client.pending ++ (storedFrom client.written.length (delivered answers)).map rot13Char := by
    rw [Client.pending, htakes.written, htakes.readIndex,
      List.drop_append_of_le_length h.inv.readIndex_le]
    rfl
  have hstep : s.step (.readable answers) = .ok ⟨buffer', s.received ++ delivered answers,
      s.stored ++ storedFrom s.buffer.writeIndex (delivered answers), s.sent⟩ := by
    rw [step, hread, ok_bind]
  refine ⟨_, hstep, ⟨hholds, hinv, htidy, ?_, hsent.trans h.sent, ?_, ?_⟩, rfl, rfl, rfl⟩
  · rw [hreceived, h.received]
  · rw [hpending, hsent, ← List.append_assoc, h.stored, List.map_append, h.holds.writeIndex_eq]
  · rw [hpending, htakes.readable, List.mem_append]
    rintro (hold | hnew)
    · exact .inl (h.marked hold)
    · obtain ⟨c, hc, heq⟩ := List.mem_map.mp hnew
      rw [rot13Char_eq_newline heq] at hc
      exact .inr ((storedFrom_sublist _ _).subset hc)

theorem Account.Inv.writeable {s : Account} {client : Client} (h : s.Inv client)
    (answers : List WriteAnswer) :
    ∃ s', s.step (.writeable answers) = .ok s' ∧ s'.Inv (client.transmit answers).1 ∧
      s.Follows (.writeable answers) s' := by
  obtain ⟨buffer', sent, hwrite, hholds, -, hreceived, hsent⟩ :=
    onSocketWriteable_ok h.holds h.inv answers
  obtain ⟨hinv, htidy⟩ := Client.transmit_inv h.inv answers
  have hgives := Client.gives_transmit h.inv answers
  have hstep : s.step (.writeable answers) =
      .ok ⟨buffer', s.received, s.stored, s.sent ++ sent⟩ := by
    rw [step, hwrite, ok_bind]
  have hsent' : s.sent ++ sent = s.sent ++ s.buffer.pending.take (roomFor answers) := by
    rw [← h.sent, ← hsent, Client.sent_transmit h.inv, h.holds.pending_eq]
  refine ⟨_, hstep, ⟨hholds, hinv, htidy, hreceived.trans h.received, ?_,
    hgives.account.trans h.stored, ?_⟩, rfl, rfl, hsent'⟩
  · rw [hsent, h.sent]
  · intro hmem
    rw [hgives.readable (List.ne_nil_of_mem hmem)]
    exact h.marked (hgives.suffix.subset hmem)

theorem Account.step_inv (s : Account) (call : Call) (h : ∃ client, s.Inv client) :
    ∃ s', s.step call = .ok s' ∧ (∃ client, s'.Inv client) ∧ s.Follows call s' := by
  obtain ⟨client, h⟩ := h
  cases call with
  | readable answers =>
    obtain ⟨s', hstep, h', hfollows⟩ := h.readable answers
    exact ⟨s', hstep, ⟨_, h'⟩, hfollows⟩
  | writeable answers =>
    obtain ⟨s', hstep, h', hfollows⟩ := h.writeable answers
    exact ⟨s', hstep, ⟨_, h'⟩, hfollows⟩

/-- The calls of every run do what they are to do. -/
theorem Account.eachStep (s : Account) (calls : List Call) (h : ∃ client, s.Inv client) :
    EachStep Account.step Account.Follows s calls := by
  have hfollows (s : Account) (call : Call) (h : ∃ client, s.Inv client) (s' : Account)
      (hs' : s.step call = .ok s') : (∃ client, s'.Inv client) ∧ s.Follows call s' := by
    obtain ⟨s'', hstep, h'⟩ := Account.step_inv s call h
    obtain rfl : s'' = s' := Except.ok.inj (hstep.symm.trans hs')
    exact h'
  exact Admissible.mono_of_inv (fun s call s' hinv _ hs' => (hfollows s call hinv s' hs').1)
    (fun s call hinv _ s' hs' => (hfollows s call hinv s' hs').2) h (admissible_true s calls)

/-- Every call receives all that there is to read, stores what finds room and sends what the
socket takes. After any sequence of calls the indices are ordered and in the buffer, what has
been sent and what is pending is the code of what has been stored, and the mark is set if a
line is pending, and only if something is. -/
theorem buffer_accounts (fill : ℕ → Byte) (calls : List Call) :
    EachStep Account.step Account.Follows ⟨newBuffer fill, [], [], []⟩ calls ∧
    ∃ s, calls.foldlM Account.step ⟨newBuffer fill, [], [], []⟩ = .ok s ∧
      s.buffer.readIndex ≤ s.buffer.writeIndex ∧ s.buffer.writeIndex ≤ maxLine ∧
      s.sent ++ s.buffer.pending = s.stored.map rot13Char ∧
      ('\n'.toUInt8 ∈ s.buffer.pending → s.buffer.readable = true) ∧
      (s.buffer.readable = true → s.buffer.readIndex < s.buffer.writeIndex) := by
  have hinit : ∃ client, Account.Inv ⟨newBuffer fill, [], [], []⟩ client :=
    ⟨.new, Account.inv_init fill⟩
  have hstep (s : Account) (call : Call) (h : ∃ client, s.Inv client) (_ : True) :
      ∃ s', s.step call = .ok s' ∧ ∃ client, s'.Inv client := by
    obtain ⟨s', hs', h', -⟩ := Account.step_inv s call h
    exact ⟨s', hs', h'⟩
  obtain ⟨s, hrun, client, h⟩ := foldlM_ok hstep hinit (admissible_true _ calls)
  have hle := h.inv.readIndex_le
  refine ⟨Account.eachStep _ calls hinit, s, hrun, ?_, ?_, ?_, ?_, ?_⟩
  · rwa [h.holds.readIndex_eq, h.holds.writeIndex_eq]
  · rw [h.holds.writeIndex_eq]
    exact h.inv.length_le
  · rw [h.holds.pending_eq, ← h.sent, h.stored]
  · rw [h.holds.pending_eq, h.holds.readable_eq]
    exact h.marked
  · intro hreadable
    rw [h.holds.readable_eq] at hreadable
    rw [h.holds.readIndex_lt_iff]
    refine lt_of_le_of_ne hle ?_
    intro hempty
    rw [(h.tidy hempty).2] at hreadable
    cases hreadable

/-- What arrives, and then what the socket takes. -/
def lineCalls : List Call :=
  [.readable [.offered ['a'.toUInt8, '\n'.toUInt8], .failed .ewouldblock],
    .writeable [.accepts 1, .failed .ewouldblock]]

/-- A line of two bytes, of which one is sent. -/
theorem buffer_accounts_line :
    ∃ s, lineCalls.foldlM Account.step ⟨newBuffer fun _ => 0, [], [], []⟩ = .ok s ∧
      s.received = ['a'.toUInt8, '\n'.toUInt8] ∧ s.stored = s.received ∧
      s.sent = ['n'.toUInt8] ∧ s.buffer.pending = ['\n'.toUInt8] := by
  -- what is pending after the first call
  obtain ⟨-, s₁, hrun₁, -, -, haccount₁, -⟩ := buffer_accounts (fun _ => 0) (lineCalls.take 1)
  obtain ⟨heach, s, hrun, -, -, haccount, -⟩ := buffer_accounts (fun _ => 0) lineCalls
  simp only [lineCalls, List.take_succ_cons, List.take_zero, List.foldlM_cons, List.foldlM_nil,
    bind_pure] at hrun₁ hrun
  rw [hrun₁, ok_bind] at hrun
  obtain ⟨hreceived₁, hstored₁, hsent₁⟩ := heach.1 s₁ hrun₁
  obtain ⟨hreceived, hstored, hsent⟩ := (heach.2 s₁ hrun₁).1 s hrun
  have hall : s₁.stored = ['a'.toUInt8, '\n'.toUInt8] := hstored₁
  have hnone : s₁.sent = [] := hsent₁
  have hpending : s₁.buffer.pending = ['n'.toUInt8, '\n'.toUInt8] := by
    rw [hnone, hall, List.nil_append] at haccount₁
    rw [haccount₁]
    decide
  have hone : s.sent = ['n'.toUInt8] := by
    rw [hsent, hnone, hpending]
    rfl
  refine ⟨s, ?_, hreceived.trans hreceived₁, ?_, hone, ?_⟩
  · simp only [lineCalls, List.foldlM_cons, List.foldlM_nil, hrun₁, ok_bind, hrun, pure_ok]
  · rw [hstored, hall, hreceived, hreceived₁]
    rfl
  · rw [hone, hstored, hall] at haccount
    have hcode : ['a'.toUInt8, '\n'.toUInt8].map rot13Char = ['n'.toUInt8] ++ ['\n'.toUInt8] := by
      decide
    rw [hcode] at haccount
    exact List.append_cancel_left haccount

end OsProgramming.Servers.NioServer
