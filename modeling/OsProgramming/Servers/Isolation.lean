import OsProgramming.Library.Runs
import OsProgramming.Servers.NioServer

/-! The clients of `nio_server.c`. A client alone is a machine of its own: a line buffer
that starts empty, and its turns. A client that is accepted on an empty buffer gets what
it gets alone, whatever the clients before it and around it do. -/

namespace OsProgramming.Servers.NioServer

open Library Reactor

/-- A client with a buffer of its own. `written` are the encoded bytes in it, and
`readIndex` says how many of them have been sent. -/
structure Client where
  written : List Byte
  readIndex : ℕ
  readable : Bool
  received : List Byte
  sent : List Byte

namespace Client

def new : Client := ⟨[], 0, false, [], []⟩

def put (client : Client) (c : Byte) : Client where
  written := if client.written.length < maxLine then client.written ++ [rot13Char c]
    else client.written
  readIndex := client.readIndex
  readable := if c = '\n'.toUInt8 then true else client.readable
  received := client.received ++ [c]
  sent := client.sent

def receive (client : Client) : List ReadAnswer → Client × ℤ
  | [] => (client, 1)
  | .failed errno :: _ => (client, if errno = .ewouldblock then 0 else -1)
  | .offered bytes :: answers =>
    if bytes = [] then (client, 1)
    else receive ((bytes.take readSize).foldl put client) answers

/-- The buffer is as new when everything is sent. -/
def flushed (client : Client) : Client :=
  if client.readIndex < client.written.length then client
  else { client with written := [], readIndex := 0, readable := false }

def skip (client : Client) (room : ℕ) : Client where
  written := client.written
  readIndex := client.readIndex + ((client.written.drop client.readIndex).take room).length
  readable := client.readable
  received := client.received
  sent := client.sent ++ (client.written.drop client.readIndex).take room

def transmit (client : Client) : List WriteAnswer → Client × ℤ
  | [] => (client.flushed, 0)
  | answer :: answers =>
    if client.readIndex < client.written.length then
      match answer with
      | .failed errno => (client, if errno = .ewouldblock then 0 else -1)
      | .accepts room => (client.skip room).transmit answers
    else (client.flushed, 0)

def read (client : Client) (present : Bool) (turn : Turn) : Client × ℤ :=
  if present && turn.readable then client.receive turn.reads else (client, turn.result)

/-- A turn, of a client that was there when `select` was called or not. -/
def serve (client : Client) (present : Bool) (turn : Turn) : Client × ℤ :=
  if (present && client.readable) && turn.writable then
    (client.read present turn).1.transmit turn.writes
  else client.read present turn

/-- The client after its turns. -/
def alone (turns : List (Bool × Turn)) : Client :=
  turns.foldl (fun client turn => (client.serve turn.1 turn.2).1) new

/-- What is sent and what is still to be sent are encoded bytes of the client. -/
structure Inv (client : Client) : Prop where
  length_le : client.written.length ≤ maxLine
  readIndex_le : client.readIndex ≤ client.written.length
  own : (client.sent ++ client.written.drop client.readIndex).Sublist
    (client.received.map rot13Char)

/-- There is something to send if the line is complete, and the buffer is as new if not. -/
def Tidy (client : Client) : Prop :=
  client.readIndex = client.written.length → client.written = [] ∧ client.readable = false

variable {client : Client}

theorem Inv.new : new.Inv := ⟨Nat.zero_le _, le_rfl, List.Sublist.refl _⟩

theorem Tidy.new : new.Tidy := fun _ => ⟨rfl, rfl⟩

theorem Inv.put (h : client.Inv) (c : Byte) : (client.put c).Inv := by
  refine ⟨?_, ?_, ?_⟩
  · simp only [Client.put]
    split_ifs with hroom
    · rw [List.length_append, List.length_singleton]
      exact hroom
    · exact h.length_le
  · simp only [Client.put]
    split_ifs
    · rw [List.length_append]
      exact Nat.le_add_right_of_le h.readIndex_le
    · exact h.readIndex_le
  · have hown := h.own
    simp only [Client.put, List.map_append, List.map_cons, List.map_nil]
    split_ifs
    · rw [List.drop_append_of_le_length h.readIndex_le, ← List.append_assoc]
      exact hown.append (List.Sublist.refl _)
    · exact hown.trans (List.sublist_append_left _ _)

/-- A byte that finds no room finds bytes to send. -/
theorem Tidy.put (h : client.Tidy) (hinv : client.Inv) (c : Byte) : (client.put c).Tidy := by
  have hle := hinv.readIndex_le
  intro hfull
  exfalso
  simp only [Client.put] at hfull
  split_ifs at hfull with hroom
  · rw [List.length_append, List.length_singleton] at hfull
    omega
  · rw [(h hfull).1] at hroom
    exact hroom (show ([] : List Byte).length < maxLine by decide)

theorem foldl_put (h : client.Inv ∧ client.Tidy) (bytes : List Byte) :
    (bytes.foldl Client.put client).Inv ∧ (bytes.foldl Client.put client).Tidy := by
  induction bytes generalizing client with
  | nil => exact h
  | cons c bytes ih => exact ih ⟨h.1.put c, h.2.put h.1 c⟩

theorem receive_inv (h : client.Inv ∧ client.Tidy) (answers : List ReadAnswer) :
    (client.receive answers).1.Inv ∧ (client.receive answers).1.Tidy := by
  induction answers generalizing client with
  | nil => exact h
  | cons answer answers ih =>
    cases answer with
    | failed errno => exact h
    | offered bytes =>
      rw [receive]
      split_ifs
      · exact h
      · exact ih (foldl_put h _)

theorem Inv.flushed (h : client.Inv) : client.flushed.Inv ∧ client.flushed.Tidy := by
  rw [Client.flushed]
  split_ifs with hlt
  · exact ⟨h, fun heq => absurd heq (ne_of_lt hlt)⟩
  · refine ⟨⟨Nat.zero_le _, le_rfl, ?_⟩, fun _ => ⟨rfl, rfl⟩⟩
    have hown := h.own
    rw [List.drop_of_length_le (not_lt.mp hlt)] at hown
    exact hown

theorem Inv.skip (h : client.Inv) (room : ℕ) : (client.skip room).Inv := by
  have hle := h.readIndex_le
  refine ⟨h.length_le, ?_, ?_⟩
  · simp only [Client.skip, List.length_take, List.length_drop]
    omega
  · have hsplit := WriteAnswer.taken_append_drop (.accepts room)
      (client.written.drop client.readIndex)
    rw [List.drop_drop] at hsplit
    have hown := h.own
    rw [← hsplit, ← List.append_assoc] at hown
    exact hown

theorem transmit_inv (h : client.Inv) (answers : List WriteAnswer) :
    (client.transmit answers).1.Inv ∧ (client.transmit answers).1.Tidy := by
  induction answers generalizing client with
  | nil => exact h.flushed
  | cons answer answers ih =>
    simp only [transmit]
    split_ifs with hlt
    · cases answer with
      | failed errno => exact ⟨h, fun heq => absurd heq (ne_of_lt hlt)⟩
      | accepts room => exact ih (h.skip room)
    · exact h.flushed

theorem serve_inv (h : client.Inv ∧ client.Tidy) (present : Bool) (turn : Turn) :
    (client.serve present turn).1.Inv ∧ (client.serve present turn).1.Tidy := by
  have hread : (client.read present turn).1.Inv ∧ (client.read present turn).1.Tidy := by
    rw [read]
    split_ifs
    · exact receive_inv h turn.reads
    · exact h
  rw [serve]
  split_ifs
  · exact transmit_inv hread.1 turn.writes
  · exact hread

theorem alone_inv (turns : List (Bool × Turn)) : (alone turns).Inv ∧ (alone turns).Tidy := by
  suffices hall : ∀ client : Client, client.Inv ∧ client.Tidy →
      (turns.foldl (fun client turn => (client.serve turn.1 turn.2).1) client).Inv ∧
        (turns.foldl (fun client turn => (client.serve turn.1 turn.2).1) client).Tidy from
    hall new ⟨.new, .new⟩
  induction turns with
  | nil => exact fun _ h => h
  | cons turn turns ih => exact fun client h => ih _ (serve_inv h turn.1 turn.2)

theorem alone_append (turns : List (Bool × Turn)) (present : Bool) (turn : Turn) :
    alone (turns ++ [(present, turn)]) = ((alone turns).serve present turn).1 := by
  rw [alone, List.foldl_append]
  rfl

/-- A buffer in which everything has been sent is as new. -/
theorem Tidy.written_eq_nil (h : client.Tidy) (hempty : client.readIndex = client.written.length) :
    client.written = [] ∧ client.readIndex = 0 ∧ client.readable = false := by
  obtain ⟨hnil, hreadable⟩ := h hempty
  refine ⟨hnil, ?_, hreadable⟩
  rw [hempty, hnil, List.length_nil]

end Client

/-! ### The buffer of a client -/

/-- The buffer behaves as that of the client alone. What lies behind `writeIndex` does not
matter. -/
structure Buffer.Holds (buffer : Buffer) (client : Client) : Prop where
  length_eq : buffer.buffer.length = maxLine
  writeIndex_eq : buffer.writeIndex = client.written.length
  take_eq : buffer.buffer.take buffer.writeIndex = client.written
  readIndex_eq : buffer.readIndex = client.readIndex
  readable_eq : buffer.readable = client.readable

variable {buffer : Buffer} {client : Client}

theorem putByte_ok (h : buffer.Holds client) (c : Byte) :
    ∃ buffer', putByte buffer c = .ok buffer' ∧ buffer'.Holds { client with
        written := if client.written.length < maxLine then client.written ++ [rot13Char c]
          else client.written } ∧
      buffer'.connectFd = buffer.connectFd := by
  rw [putByte, ← h.writeIndex_eq]
  split_ifs with hroom
  · have hlt : buffer.writeIndex < buffer.buffer.length := by
      rw [h.length_eq]
      exact hroom
    rw [store_one _ hlt, ok_bind]
    refine ⟨_, rfl, ⟨?_, ?_, ?_, h.readIndex_eq, h.readable_eq⟩, rfl⟩
    · exact (List.length_set ..).trans h.length_eq
    · rw [List.length_append, List.length_singleton, ← h.writeIndex_eq]
    · exact (take_succ_set hlt _).trans (congrArg (· ++ [rot13Char c]) h.take_eq)
  · exact ⟨buffer, rfl, h, rfl⟩

theorem keepByte_ok (h : buffer.Holds client) (c : Byte) :
    ∃ buffer', keepByte buffer c = .ok buffer' ∧ buffer'.Holds (client.put c) ∧
      buffer'.connectFd = buffer.connectFd := by
  obtain ⟨buffer', hput, ⟨hlen, hwrite, htake, hread, hreadable⟩, hfd⟩ := putByte_ok h c
  refine ⟨markReadable buffer' c, by rw [keepByte, hput, ok_bind], ?_⟩
  by_cases hc : c = '\n'.toUInt8
  · rw [markReadable, if_pos hc]
    exact ⟨⟨hlen, hwrite, htake, hread, (if_pos hc).symm⟩, hfd⟩
  · rw [markReadable, if_neg hc]
    exact ⟨⟨hlen, hwrite, htake, hread, hreadable.trans (if_neg hc).symm⟩, hfd⟩

theorem keepBytes_ok (h : buffer.Holds client) (bytes : List Byte) :
    ∃ buffer', bytes.foldlM keepByte buffer = .ok buffer' ∧
      buffer'.Holds (bytes.foldl Client.put client) ∧ buffer'.connectFd = buffer.connectFd := by
  induction bytes generalizing buffer client with
  | nil => exact ⟨buffer, rfl, h, rfl⟩
  | cons c bytes ih =>
    obtain ⟨buffer₁, hput, h₁, hfd₁⟩ := keepByte_ok h c
    obtain ⟨buffer', hrest, h', hfd'⟩ := ih h₁
    refine ⟨buffer', ?_, h', hfd'.trans hfd₁⟩
    rw [List.foldlM_cons, hput, ok_bind, hrest]

theorem foldl_put_log (client : Client) (bytes : List Byte) :
    (bytes.foldl Client.put client).received = client.received ++ bytes ∧
      (bytes.foldl Client.put client).sent = client.sent := by
  induction bytes generalizing client with
  | nil => exact ⟨(List.append_nil _).symm, rfl⟩
  | cons c bytes ih =>
    obtain ⟨hreceived, hsent⟩ := ih (client.put c)
    refine ⟨?_, hsent⟩
    rw [List.foldl_cons, hreceived, Client.put, List.append_assoc, List.singleton_append]

theorem onSocketReadable_ok (h : buffer.Holds client) (answers : List ReadAnswer) :
    ∃ buffer' received, onSocketReadable buffer answers =
        .ok (buffer', received, (client.receive answers).2) ∧
      buffer'.Holds (client.receive answers).1 ∧ buffer'.connectFd = buffer.connectFd ∧
      (client.receive answers).1.received = client.received ++ received ∧
      (client.receive answers).1.sent = client.sent := by
  induction answers generalizing buffer client with
  | nil => exact ⟨buffer, [], rfl, h, rfl, (List.append_nil _).symm, rfl⟩
  | cons answer answers ih =>
    cases answer with
    | failed errno => exact ⟨buffer, [], rfl, h, rfl, (List.append_nil _).symm, rfl⟩
    | offered bytes =>
      simp only [onSocketReadable, Client.receive]
      split_ifs with hbytes
      · exact ⟨buffer, [], rfl, h, rfl, (List.append_nil _).symm, rfl⟩
      · obtain ⟨buffer₁, hput, h₁, hfd₁⟩ := keepBytes_ok h (bytes.take readSize)
        obtain ⟨buffer', received, hrest, h', hfd', hreceived, hsent⟩ := ih h₁
        refine ⟨buffer', bytes.take readSize ++ received, ?_, h', hfd'.trans hfd₁, ?_, ?_⟩
        · rw [hput, ok_bind, hrest, ok_bind]
        · rw [hreceived, (foldl_put_log client _).1, List.append_assoc]
        · rw [hsent, (foldl_put_log client _).2]

theorem Buffer.Holds.readIndex_lt_iff (h : buffer.Holds client) :
    buffer.readIndex < buffer.writeIndex ↔ client.readIndex < client.written.length := by
  rw [h.readIndex_eq, h.writeIndex_eq]

/-- What `send` is given is what the client has to send. -/
theorem Buffer.Holds.fetch_pending (h : buffer.Holds client) (hinv : client.Inv) :
    fetch buffer.buffer buffer.readIndex (buffer.writeIndex - buffer.readIndex) =
      .ok (client.written.drop client.readIndex) := by
  have hle : buffer.readIndex ≤ buffer.writeIndex := by
    rw [h.readIndex_eq, h.writeIndex_eq]
    exact hinv.readIndex_le
  have hmax : buffer.writeIndex ≤ buffer.buffer.length := by
    rw [h.length_eq, h.writeIndex_eq]
    exact hinv.length_le
  have hsub : (buffer.writeIndex : ℤ) - buffer.readIndex =
      ((buffer.writeIndex - buffer.readIndex : ℕ) : ℤ) := by omega
  rw [hsub, fetch_natCast _ (by omega), ← List.drop_take, h.take_eq, h.readIndex_eq]

theorem writtenAll_holds (h : buffer.Holds client) (hinv : client.Inv) :
    (if buffer.readIndex < buffer.writeIndex then buffer else writtenAll buffer).Holds
        client.flushed ∧
      (if buffer.readIndex < buffer.writeIndex then buffer else writtenAll buffer).connectFd =
        buffer.connectFd := by
  rw [Client.flushed]
  by_cases hlt : buffer.readIndex < buffer.writeIndex
  · rw [if_pos hlt, if_pos (h.readIndex_lt_iff.mp hlt)]
    exact ⟨h, rfl⟩
  · have heq : buffer.readIndex = buffer.writeIndex := by
      have hle := hinv.readIndex_le
      rw [← h.readIndex_eq, ← h.writeIndex_eq] at hle
      omega
    rw [if_neg hlt, if_neg (mt h.readIndex_lt_iff.mpr hlt), writtenAll, if_pos heq]
    exact ⟨⟨h.length_eq, rfl, rfl, rfl, rfl⟩, rfl⟩

theorem onSocketWriteable_ok (h : buffer.Holds client) (hinv : client.Inv)
    (answers : List WriteAnswer) :
    ∃ buffer' sent, onSocketWriteable buffer answers =
        .ok (buffer', sent, (client.transmit answers).2) ∧
      buffer'.Holds (client.transmit answers).1 ∧ buffer'.connectFd = buffer.connectFd ∧
      (client.transmit answers).1.received = client.received ∧
      (client.transmit answers).1.sent = client.sent ++ sent := by
  have hflushed : client.flushed.received = client.received ∧
      client.flushed.sent = client.sent := by
    rw [Client.flushed]
    split_ifs <;> exact ⟨rfl, rfl⟩
  induction answers generalizing buffer client with
  | nil =>
    obtain ⟨hholds, hfd⟩ := writtenAll_holds h hinv
    exact ⟨_, [], rfl, hholds, hfd, hflushed.1, hflushed.2.trans (List.append_nil _).symm⟩
  | cons answer answers ih =>
    simp only [onSocketWriteable, Client.transmit, ← h.readIndex_lt_iff]
    split_ifs with hlt
    · cases answer with
      | failed errno => exact ⟨buffer, [], rfl, h, rfl, rfl, (List.append_nil _).symm⟩
      | accepts room =>
        have hskip : ({ buffer with readIndex := buffer.readIndex +
            ((client.written.drop client.readIndex).take room).length } : Buffer).Holds
            (client.skip room) :=
          ⟨h.length_eq, h.writeIndex_eq, h.take_eq, congrArg (· + _) h.readIndex_eq, h.readable_eq⟩
        obtain ⟨buffer', sent, hrest, h', hfd, hreceived, hsent⟩ := ih hskip (hinv.skip room)
          (by rw [Client.flushed]; split_ifs <;> exact ⟨rfl, rfl⟩)
        refine ⟨buffer', (client.written.drop client.readIndex).take room ++ sent, ?_, h', hfd,
          hreceived, ?_⟩
        · simp only [h.fetch_pending hinv, ok_bind, hrest]
        · rw [hsent, Client.skip, List.append_assoc]
    · obtain ⟨hholds, hfd⟩ := writtenAll_holds h hinv
      rw [if_neg hlt] at hholds hfd
      exact ⟨_, [], rfl, hholds, hfd, hflushed.1, hflushed.2.trans (List.append_nil _).symm⟩

theorem serveRead_ok (h : buffer.Holds client) (hinv : client.Inv ∧ client.Tidy) (present : Bool)
    (turn : Turn) :
    ∃ buffer' received, serveRead buffer present turn =
        .ok (buffer', received, (client.read present turn).2) ∧
      buffer'.Holds (client.read present turn).1 ∧ buffer'.connectFd = buffer.connectFd ∧
      (client.read present turn).1.received = client.received ++ received ∧
      (client.read present turn).1.sent = client.sent ∧ (client.read present turn).1.Inv := by
  rw [serveRead, Client.read]
  split_ifs
  · obtain ⟨buffer', received, hread, h', hfd, hreceived, hsent⟩ := onSocketReadable_ok h turn.reads
    exact ⟨buffer', received, hread, h', hfd, hreceived, hsent,
      (Client.receive_inv hinv turn.reads).1⟩
  · exact ⟨buffer, [], rfl, h, rfl, (List.append_nil _).symm, rfl, hinv.1⟩

/-- A turn of the server is a turn of the client alone, if `select` has been asked for the
right descriptors. -/
theorem serve_ok (h : buffer.Holds client) (hinv : client.Inv ∧ client.Tidy) (present : Bool)
    (turn : Turn) :
    ∃ buffer' received sent, serve buffer present (present && buffer.readable) turn =
        .ok (buffer', received, sent, (client.serve present turn).2) ∧
      buffer'.Holds (client.serve present turn).1 ∧ buffer'.connectFd = buffer.connectFd ∧
      (client.serve present turn).1.received = client.received ++ received ∧
      (client.serve present turn).1.sent = client.sent ++ sent := by
  obtain ⟨buffer₁, received, hread, h₁, hfd₁, hreceived, hsent, hinv₁⟩ :=
    serveRead_ok h hinv present turn
  rw [serve, hread, ok_bind, h.readable_eq, Client.serve]
  by_cases hwritable : ((present && client.readable) && turn.writable) = true
  · obtain ⟨buffer', sent, hwrite, h', hfd', hreceived', hsent'⟩ :=
      onSocketWriteable_ok h₁ hinv₁ turn.writes
    rw [if_pos hwritable]
    refine ⟨buffer', received, sent, ?_, h', hfd'.trans hfd₁, hreceived'.trans hreceived, ?_⟩
    · simp only [serveWrite, if_pos hwritable, hwrite, ok_bind]
    · rw [hsent', hsent]
  · rw [if_neg hwritable]
    refine ⟨buffer₁, received, [], ?_, h₁, hfd₁, hreceived, hsent.trans (List.append_nil _).symm⟩
    simp only [serveWrite, if_neg hwritable, ok_bind]

/-! ### All clients -/

/-- What has been done for a client is what is done for it alone. -/
structure Log.Own (log : Log) : Prop where
  received_eq : log.received = (Client.alone log.turns).received
  sent_eq : log.sent = (Client.alone log.turns).sent

/-- A slot that is in use is that of its descriptor, and its buffer is that of its last
client alone. -/
structure Slot (i : ℕ) (buffer : Buffer) (log : Log) : Prop where
  connectFd_eq : 0 ≤ buffer.connectFd → buffer.connectFd = i
  holds : buffer.Holds (.alone log.turns)

structure Inv (s : Server) : Prop where
  length_eq : s.buffers.length = fdInitSize
  slot : ∀ (i : ℕ) (buffer : Buffer), s.buffers[i]? = some buffer → Slot i buffer (s.log i)
  own : ∀ i, (s.log i).Own

/-- A client is accepted on a descriptor whose buffer is empty. -/
def AcceptsClean (s : Server) (pass : Pass) : Prop :=
  ∀ fd ∈ pass.accepted, 0 ≤ fd → ∀ buffer ∈ s.buffers[fd.toNat]?,
    buffer.readIndex = buffer.writeIndex

instance (s : Server) (pass : Pass) : Decidable (AcceptsClean s pass) :=
  inferInstanceAs (Decidable (∀ fd ∈ pass.accepted, 0 ≤ fd → ∀ buffer ∈ s.buffers[fd.toNat]?,
    buffer.readIndex = buffer.writeIndex))

variable {s s' : Server}

theorem newBuffer_holds (fill : ℕ → Byte) : (newBuffer fill).Holds .new := by
  refine ⟨?_, rfl, ?_, rfl, rfl⟩
  · rw [newBuffer, length_malloc]
  · rw [newBuffer, List.take_zero]
    rfl

theorem inv_init (fill : ℕ → ℕ → Byte) : Inv (init fill) := by
  refine ⟨?_, ?_, fun _ => ⟨rfl, rfl⟩⟩
  · rw [init, List.length_map, List.length_range]
  · intro i buffer hget
    have hmem : buffer ∈ (List.range fdInitSize).map fun i => newBuffer (fill i) :=
      List.mem_of_getElem? hget
    obtain ⟨j, -, rfl⟩ := List.mem_map.mp hmem
    exact ⟨nofun, newBuffer_holds (fill j)⟩

/-- Within a pass, a slot is in `write_set` if it is in `read_set` and has something to
send. -/
def Selected (reads writes : List ℤ) (s : Server) (i : ℕ) : Prop :=
  ∀ buffer, s.buffers[i]? = some buffer → 0 ≤ buffer.connectFd →
    decide (buffer.connectFd ∈ writes) = (decide (buffer.connectFd ∈ reads) && buffer.readable)

section

variable (h : Inv s) {i : ℕ}
include h

theorem Inv.mem_of_connectFd {buffer : Buffer} (hmem : buffer ∈ s.buffers)
    (hfd : 0 ≤ buffer.connectFd) (hi : buffer.connectFd = i) : s.buffers[i]? = some buffer := by
  obtain ⟨j, hj⟩ := List.mem_iff_getElem?.mp hmem
  have hji : j = i := by exact_mod_cast ((h.slot j buffer hj).connectFd_eq hfd).symm.trans hi
  rw [← hji, hj]

theorem Inv.mem_readSet :
    (i : ℤ) ∈ readSet s.buffers ↔ ∃ buffer, s.buffers[i]? = some buffer ∧ 0 ≤ buffer.connectFd := by
  constructor
  · intro hmem
    obtain ⟨buffer, hbuffer, hi⟩ := List.mem_map.mp hmem
    obtain ⟨hin, hfd⟩ := List.mem_filter.mp hbuffer
    exact ⟨buffer, h.mem_of_connectFd hin (of_decide_eq_true hfd) hi, of_decide_eq_true hfd⟩
  · rintro ⟨buffer, hget, hfd⟩
    refine List.mem_map.mpr ⟨buffer, List.mem_filter.mpr ⟨List.mem_of_getElem? hget, ?_⟩,
      (h.slot i buffer hget).connectFd_eq hfd⟩
    exact decide_eq_true hfd

theorem Inv.mem_writeSet :
    (i : ℤ) ∈ writeSet s.buffers ↔ ∃ buffer, s.buffers[i]? = some buffer ∧
      0 ≤ buffer.connectFd ∧ buffer.readable = true := by
  constructor
  · intro hmem
    obtain ⟨buffer, hbuffer, hi⟩ := List.mem_map.mp hmem
    obtain ⟨hin, hfd⟩ := List.mem_filter.mp hbuffer
    have hwanted := of_decide_eq_true hfd
    exact ⟨buffer, h.mem_of_connectFd hin hwanted.1 hi, hwanted⟩
  · rintro ⟨buffer, hget, hwanted⟩
    refine List.mem_map.mpr ⟨buffer, List.mem_filter.mpr ⟨List.mem_of_getElem? hget, ?_⟩,
      (h.slot i buffer hget).connectFd_eq hwanted.1⟩
    exact decide_eq_true hwanted

/-- `select` is asked for the slots as they are. -/
theorem Inv.selected : Selected (readSet s.buffers) (writeSet s.buffers) s i := by
  intro buffer hget hfd
  rw [(h.slot i buffer hget).connectFd_eq hfd,
    decide_eq_true (h.mem_readSet.mpr ⟨buffer, hget, hfd⟩), Bool.true_and]
  cases hreadable : buffer.readable with
  | true => exact decide_eq_true (h.mem_writeSet.mpr ⟨buffer, hget, hfd, hreadable⟩)
  | false =>
    refine decide_eq_false ?_
    intro hmem
    obtain ⟨buffer', hget', -, hreadable'⟩ := h.mem_writeSet.mp hmem
    cases hget.symm.trans hget'
    exact absurd (hreadable.symm.trans hreadable') nofun

end

/-- A slot is overwritten with what belongs to it. -/
theorem Inv.set (h : Inv s) {i : ℕ} {buffer : Buffer} {log : Log} (hslot : Slot i buffer log)
    (hown : log.Own) : Inv ⟨s.buffers.set i buffer, Function.update s.log i log⟩ := by
  refine ⟨(List.length_set ..).trans h.length_eq, ?_, ?_⟩
  · intro j buffer' hget
    show Slot j buffer' (Function.update s.log i log j)
    by_cases hj : j = i
    · subst hj
      obtain ⟨hlt, hget'⟩ := List.getElem?_eq_some_iff.mp hget
      rw [List.getElem_set_self] at hget'
      rwa [Function.update_self, ← hget']
    · rw [List.getElem?_set_ne (Ne.symm hj)] at hget
      rw [Function.update_of_ne hj]
      exact h.slot j buffer' hget
  · intro j
    show (Function.update s.log i log j).Own
    by_cases hj : j = i
    · rwa [hj, Function.update_self]
    · rw [Function.update_of_ne hj]
      exact h.own j

/-- The buffer of a client that has been sent everything serves the next one as a new one
does. -/
theorem Buffer.Holds.next (h : buffer.Holds client) (htidy : client.Tidy)
    (hempty : buffer.readIndex = buffer.writeIndex) (fd : ℤ) :
    { buffer with connectFd := fd }.Holds .new := by
  rw [h.readIndex_eq, h.writeIndex_eq] at hempty
  obtain ⟨hwritten, hread, hreadable⟩ := htidy.written_eq_nil hempty
  have hwrite : buffer.writeIndex = 0 := by rw [h.writeIndex_eq, hwritten, List.length_nil]
  refine ⟨h.length_eq, hwrite, ?_, h.readIndex_eq.trans hread, h.readable_eq.trans hreadable⟩
  exact h.take_eq.trans hwritten

/-- A client is accepted on an empty buffer: it starts as a client alone does. -/
theorem Inv.acceptClient (h : Inv s) {pass : Pass} (hclean : AcceptsClean s pass)
    (hret : acceptClient s pass.accepted = .ok s') :
    Inv s' ∧ ∀ i, Selected (readSet s.buffers) (writeSet s.buffers) s' i := by
  cases haccepted : pass.accepted with
  | none =>
    rw [haccepted] at hret
    cases hret
    exact ⟨h, fun _ => h.selected⟩
  | some fd =>
    simp only [haccepted, NioServer.acceptClient] at hret
    split_ifs at hret with hneg hmany
    obtain ⟨i, rfl⟩ := Int.eq_ofNat_of_zero_le (not_lt.mp hneg)
    obtain ⟨buffer, hload, hrest⟩ := bind_eq_ok.mp hret
    have hget := getElem?_of_load hload
    split_ifs at hrest with hfree
    rw [store_one _ (List.getElem?_eq_some_iff.mp hget).1, ok_bind] at hrest
    cases hrest
    have hholds := (h.slot i buffer hget).holds.next (Client.alone_inv _).2
      (hclean i haccepted (Int.natCast_nonneg i) buffer hget) i
    refine ⟨h.set ⟨fun _ => rfl, hholds⟩ ⟨rfl, rfl⟩, ?_⟩
    intro j buffer' hget' hfd
    by_cases hj : j = i
    · -- the new client was not there when `select` was called
      subst hj
      have hnew : (j : ℤ) ∉ readSet s.buffers := by
        intro hmem
        obtain ⟨old, hold, hfd'⟩ := h.mem_readSet.mp hmem
        cases hget.symm.trans hold
        omega
      have hnew' : (j : ℤ) ∉ writeSet s.buffers := by
        intro hmem
        obtain ⟨old, hold, hfd', -⟩ := h.mem_writeSet.mp hmem
        exact hnew (h.mem_readSet.mpr ⟨old, hold, hfd'⟩)
      obtain ⟨hlt, hbuffer⟩ := List.getElem?_eq_some_iff.mp hget'
      rw [List.getElem_set_self] at hbuffer
      rw [← hbuffer, decide_eq_false hnew, decide_eq_false hnew', Bool.false_and]
    · rw [List.getElem?_set_ne (Ne.symm hj)] at hget'
      exact h.selected buffer' hget' hfd

/-- Serving a client that has been selected. -/
theorem Inv.handleClient (h : Inv s) {serverFd : ℤ} {reads writes : List ℤ} {pass : Pass} {i : ℕ}
    (hselected : Selected reads writes s i)
    (hret : handleClient serverFd reads writes pass s i = .ok s') :
    Inv s' ∧ ∀ j, j ≠ i → s'.buffers[j]? = s.buffers[j]? := by
  obtain ⟨buffer, hload, hrest⟩ := bind_eq_ok.mp hret
  have hget := getElem?_of_load hload
  dsimp only at hrest
  split_ifs at hrest with hskip
  · cases hrest
    exact ⟨h, fun _ _ => rfl⟩
  have hfd : 0 ≤ buffer.connectFd := not_lt.mp fun hneg => hskip (.inl hneg)
  have hslot := h.slot i buffer hget
  obtain ⟨buffer', received, sent, hserve, hholds, hfd', hreceived, hsent⟩ :=
    serve_ok hslot.holds (Client.alone_inv _) (buffer.connectFd ∈ reads)
      (pass.turn buffer.connectFd)
  rw [hselected buffer hget hfd, hserve, ok_bind] at hrest
  dsimp only at hrest
  rw [store_one _ (List.getElem?_eq_some_iff.mp hget).1, ok_bind] at hrest
  cases hrest
  refine ⟨h.set ⟨?_, ?_⟩ ⟨?_, ?_⟩, fun j hj => List.getElem?_set_ne (Ne.symm hj)⟩
  · split_ifs
    · nofun
    · rw [hfd']
      exact hslot.connectFd_eq
  · rw [Client.alone_append]
    split_ifs
    · exact ⟨hholds.length_eq, hholds.writeIndex_eq, hholds.take_eq, hholds.readIndex_eq,
        hholds.readable_eq⟩
    · exact hholds
  · rw [Client.alone_append, hreceived, (h.own i).received_eq]
  · rw [Client.alone_append, hsent, (h.own i).sent_eq]

theorem Inv.handleClients {serverFd : ℤ} {reads writes : List ℤ} {pass : Pass} {slots : List ℕ}
    (hslots : slots.Nodup) (h : Inv s) (hselected : ∀ i ∈ slots, Selected reads writes s i)
    (hret : slots.foldlM (NioServer.handleClient serverFd reads writes pass) s = .ok s') :
    Inv s' := by
  induction slots generalizing s with
  | nil =>
    cases hret
    exact h
  | cons i slots ih =>
    obtain ⟨hi, hrest⟩ := List.nodup_cons.mp hslots
    rw [List.foldlM_cons, bind_eq_ok] at hret
    obtain ⟨s₁, hs₁, hret'⟩ := hret
    obtain ⟨h₁, hothers⟩ := h.handleClient (hselected i List.mem_cons_self) hs₁
    refine ih hrest h₁ ?_ hret'
    intro j hj buffer hget
    rw [hothers j (ne_of_mem_of_not_mem hj hi)] at hget
    exact hselected j (List.mem_cons_of_mem i hj) buffer hget

/-- One round of the loop of `main`. -/
theorem Inv.step (h : Inv s) {serverFd : ℤ} {pass : Pass} (hclean : AcceptsClean s pass)
    (hret : step serverFd s pass = .ok s') : Inv s' := by
  simp only [NioServer.step] at hret
  split_ifs at hret
  obtain ⟨s₁, hs₁, hret'⟩ := bind_eq_ok.mp hret
  obtain ⟨h₁, hselected⟩ := h.acceptClient hclean hs₁
  exact h₁.handleClients List.nodup_range (fun i _ => hselected i) hret'

/-- If every client is accepted on an empty buffer, what is sent to a client are encoded
bytes of its own, and the same in every run in which the client has the same turns. -/
theorem clients_isolated {serverFd serverFd' : ℤ} {fill fill' : ℕ → ℕ → Byte}
    {passes passes' : List Pass}
    (hclean : Admissible (step serverFd) AcceptsClean (init fill) passes)
    (hclean' : Admissible (step serverFd') AcceptsClean (init fill') passes')
    (hrun : passes.foldlM (step serverFd) (init fill) = .ok s)
    (hrun' : passes'.foldlM (step serverFd') (init fill') = .ok s') (i j : ℕ) :
    (s.log i).sent.Sublist ((s.log i).received.map rot13Char) ∧
      ((s.log i).turns = (s'.log j).turns → (s.log i).sent = (s'.log j).sent) := by
  have hinv := foldlM_inv (fun _ _ _ h hclean => h.step hclean) (inv_init fill) hclean hrun
  have hinv' := foldlM_inv (fun _ _ _ h hclean => h.step hclean) (inv_init fill') hclean' hrun'
  have hown := (Client.alone_inv (s.log i).turns).1.own
  rw [← (hinv.own i).received_eq, ← (hinv.own i).sent_eq] at hown
  refine ⟨(List.sublist_append_left _ _).trans hown, ?_⟩
  intro hturns
  rw [(hinv.own i).sent_eq, (hinv'.own j).sent_eq, hturns]

/-- A turn in which `bytes` are read, if there are any, and everything can be sent. -/
def turnReading (bytes : List Byte) (last : ReadAnswer) : Turn :=
  ⟨bytes ≠ [], [.offered bytes, last], true, [.accepts maxLine], 0⟩

/-- The first client leaves in the middle of a line, and the second one is sent what it
has left. -/
theorem leaves_bytes_to_next :
    ∃ s, [⟨false, some 4, fun _ => turnReading [] (.offered [])⟩,
        ⟨false, none, fun _ => turnReading [97] (.offered [])⟩,
        ⟨false, some 4, fun _ => turnReading [] (.offered [])⟩,
        ⟨false, none, fun _ => turnReading [98, 10] (.failed .ewouldblock)⟩,
        ⟨false, none, fun _ => turnReading [] (.offered [])⟩].foldlM (step 3)
          (init fun _ _ => 0) = .ok s ∧
      ((s.log 4).received = [98, 10] ∧ (s.log 4).sent = [110, 111, 10]) ∧
      ¬ ∀ b ∈ (s.log 4).sent, ∃ a ∈ (s.log 4).received, b = rot13Char a :=
  exists_ok_of_any (by decide +kernel)

/-- The first client has been sent its line when it leaves. -/
theorem clients_isolated_two :
    ∃ s, [⟨false, some 4, fun _ => turnReading [] (.offered [])⟩,
        ⟨false, none, fun _ => turnReading [97, 10] (.failed .ewouldblock)⟩,
        ⟨false, none, fun _ => turnReading [] (.offered [])⟩,
        ⟨false, none, fun _ => ⟨true, [.offered []], false, [], 0⟩⟩,
        ⟨false, some 4, fun _ => turnReading [] (.offered [])⟩,
        ⟨false, none, fun _ => turnReading [98, 10] (.failed .ewouldblock)⟩,
        ⟨false, none, fun _ => turnReading [] (.offered [])⟩].foldlM (step 3)
          (init fun _ _ => 0) = .ok s ∧
      (s.log 4).sent = [111, 10] ∧
      (s.log 4).sent.Sublist ((s.log 4).received.map rot13Char) := by
  obtain ⟨s, hrun, hsent⟩ : ∃ s, [⟨false, some 4, fun _ => turnReading [] (.offered [])⟩,
      ⟨false, none, fun _ => turnReading [97, 10] (.failed .ewouldblock)⟩,
      ⟨false, none, fun _ => turnReading [] (.offered [])⟩,
      ⟨false, none, fun _ => ⟨true, [.offered []], false, [], 0⟩⟩,
      ⟨false, some 4, fun _ => turnReading [] (.offered [])⟩,
      ⟨false, none, fun _ => turnReading [98, 10] (.failed .ewouldblock)⟩,
      ⟨false, none, fun _ => turnReading [] (.offered [])⟩].foldlM (step 3)
        (init fun _ _ => 0) = .ok s ∧ (s.log 4).sent = [111, 10] :=
    exists_ok_of_any (by decide +kernel)
  exact ⟨s, hrun, hsent, (clients_isolated (by decide +kernel) (by decide +kernel) hrun hrun 4 4).1⟩

end OsProgramming.Servers.NioServer
