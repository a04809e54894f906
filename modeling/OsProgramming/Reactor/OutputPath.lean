import OsProgramming.Reactor.BufferQueue
import OsProgramming.Reactor.TcpConnection

/-! The output path of a connection: sends and writable events keep what the
socket has accepted, followed by what is queued, equal to what has been handed
over, and write interest is on exactly while something is queued. -/

namespace OsProgramming.Reactor

open Library

/-- A call leaves everything but the output path of the connection alone. -/
def OutputOnly (c c' : TcpConnection) : Prop :=
  c' = { c with
    channel := { c.channel with events := c'.channel.events }
    outputBuffer := c'.outputBuffer
    stream := { c.stream with accepted := c'.stream.accepted } }

namespace OutputOnly

variable {c c' c'' : TcpConnection}

theorem refl (c : TcpConnection) : OutputOnly c c := rfl

theorem trans (h : OutputOnly c c') (h' : OutputOnly c' c'') : OutputOnly c c'' := by
  unfold OutputOnly at *
  rw [h', h]

/-- The interest may have changed too. -/
theorem of_channel (hchannel : c'.channel = { c.channel with events := c'.channel.events })
    (hrest : OutputOnly { c with channel := c'.channel } c') : OutputOnly c c' :=
  Eq.trans hrest (congrArg (fun channel => { c with
    channel
    outputBuffer := c'.outputBuffer
    stream := { c.stream with accepted := c'.stream.accepted } }) hchannel)

theorem loop (h : OutputOnly c c') : c'.loop = c.loop := by rw [h]

theorem channel_data (h : OutputOnly c c') : c'.channel.data = c.channel.data := by rw [h]

theorem channel_fd (h : OutputOnly c c') : c'.channel.fd = c.channel.fd := by rw [h]

theorem callbacks (h : OutputOnly c c') : c'.callbacks = c.callbacks := by rw [h]

theorem data (h : OutputOnly c c') : c'.data = c.data := by rw [h]

theorem inputBuffer (h : OutputOnly c c') : c'.inputBuffer = c.inputBuffer := by rw [h]

theorem received (h : OutputOnly c c') : c'.stream.received = c.stream.received := by rw [h]

end OutputOnly

/-- What the socket has accepted and what is queued make up `handed`. -/
structure OutputInv (c : TcpConnection) (handed : List Byte) : Prop where
  wellFormed : c.outputBuffer.WellFormed
  queued : c.stream.accepted ++ c.outputBuffer.readable = handed
  interest : channelEventIsWriteable (some c.channel) = true ↔ c.outputBuffer.readable ≠ []

/-- The bytes that a `write` from a buffer is given. -/
theorem fetch_readable {b : Buffer} (hb : b.WellFormed) :
    fetch b.data b.readIndex (bufferReadableSize b) = .ok b.readable := by
  obtain ⟨w, rfl, -⟩ := hb.exists_window
  have hlo := w.lo_le_hi
  have hhi := w.hi_le_length
  have h := fetch_natCast w.cells (i := w.lo) (n := w.hi - w.lo) (by omega)
  rw [← w.contents_eq_take_drop] at h
  have hsize : ((w.hi - w.lo : ℕ) : ℤ) = (w.hi : ℤ) - w.lo := by omega
  rw [hsize] at h
  exact h

theorem OutputInv.writesDirectly {c : TcpConnection} {handed : List Byte}
    (h : OutputInv c handed) : WritesDirectly c ↔ c.outputBuffer.readable = [] := by
  rw [WritesDirectly, h.wellFormed.readableSize_eq_zero, ← Bool.not_eq_true, h.interest]
  tauto

/-! ### Writable events -/

/-- The connection once the socket has taken a prefix of its queue. -/
def TcpConnection.afterWrite (c : TcpConnection) (taken : List Byte) : TcpConnection :=
  { c with
    outputBuffer := c.outputBuffer.advance taken.length
    stream := { c.stream with accepted := c.stream.accepted ++ taken } }

/-- The callback that a productive `handle_write` invokes. -/
def TcpConnection.completion (c : TcpConnection) : Option AppCallback :=
  if c.callbacks.onWriteCompleted then some .onWriteCompleted else none

/-- `handle_write` on the readable bytes of the queue. -/
theorem handleWrite_eq (cast : ChannelData → Result LoopId) {c : TcpConnection}
    (socket : WriteAnswer) (hwf : c.outputBuffer.WellFormed) :
    handleWrite cast c socket =
      if socket.taken c.outputBuffer.readable = [] then .ok ⟨c, [], none⟩
      else if (c.afterWrite (socket.taken c.outputBuffer.readable)).outputBuffer.readable = []
      then do
        let (channel, post) ← channelEventDisableWrite cast c.channel
        .ok ⟨{ c.afterWrite (socket.taken c.outputBuffer.readable) with channel }, [post],
          c.completion⟩
      else .ok ⟨c.afterWrite (socket.taken c.outputBuffer.readable), [], c.completion⟩ := by
  cases socket with
  | failed errno =>
    simp [handleWrite, fetch_readable hwf, WriteAnswer.taken, WriteAnswer.result]
  | accepts room =>
    obtain ⟨hwf', -⟩ := advance_ok hwf
      ((WriteAnswer.accepts room).length_taken_le c.outputBuffer.readable)
    have hresult : (WriteAnswer.accepts room).result c.outputBuffer.readable =
        ((WriteAnswer.accepts room).taken c.outputBuffer.readable).length := rfl
    simp only [handleWrite, fetch_readable hwf, ok_bind, hresult]
    set taken := (WriteAnswer.accepts room).taken c.outputBuffer.readable
    by_cases hnil : taken = []
    · simp [hnil]
    · have hpos : (0 : ℤ) < taken.length := by
        have := List.length_pos_iff.mpr hnil
        omega
      have hdone : (c.afterWrite taken).outputBuffer.readable = [] ↔
          bufferReadableSize (c.outputBuffer.advance taken.length) = 0 :=
        hwf'.readableSize_eq_zero.symm
      rw [if_pos hpos, if_neg hnil, if_congr hdone rfl rfl]
      rfl

/-- A writable event moves bytes from the queue to the socket. -/
theorem handleWrite_ok (cast : ChannelData → Result LoopId) {c : TcpConnection} {loop : LoopId}
    {handed : List Byte} (socket : WriteAnswer) (hinv : OutputInv c handed)
    (hcast : cast c.channel.data = .ok loop) :
    ∃ effect, handleWrite cast c socket = .ok effect ∧ OutputInv effect.connection handed ∧
      OutputOnly c effect.connection := by
  obtain ⟨hwf, hqueued, hinterest⟩ := hinv
  set taken := socket.taken c.outputBuffer.readable with htaken
  obtain ⟨hwf', hread'⟩ := advance_ok hwf (socket.length_taken_le c.outputBuffer.readable)
  rw [← htaken] at hwf' hread'
  have hsplit := socket.taken_append_drop c.outputBuffer.readable
  rw [← htaken] at hsplit
  have hqueued' : c.stream.accepted ++ taken ++ (c.outputBuffer.advance taken.length).readable =
      handed := by rw [hread', List.append_assoc, hsplit, hqueued]
  rw [handleWrite_eq cast socket hwf, ← htaken]
  by_cases hnil : taken = []
  · exact ⟨⟨c, [], none⟩, by simp [hnil], ⟨hwf, hqueued, hinterest⟩, rfl⟩
  by_cases hdone : (c.afterWrite taken).outputBuffer.readable = []
  · -- everything is written, and write interest is switched off
    simp only [hnil, hdone, ↓reduceIte, channelEventDisableWrite_ok hcast, ok_bind]
    refine ⟨_, rfl, ⟨hwf', hqueued', ?_⟩, rfl⟩
    rw [isWriteable_disabled]
    simpa using hdone
  · simp only [hnil, hdone, ↓reduceIte]
    refine ⟨_, rfl, ⟨hwf', hqueued', fun _ => hdone, fun _ => hinterest.mpr fun h => hdone ?_⟩, rfl⟩
    exact hread'.trans (by rw [h, List.drop_nil])

theorem handleWrite_returns {cast : ChannelData → Result LoopId} {c : TcpConnection}
    {loop : LoopId} (socket : WriteAnswer) (hwf : c.outputBuffer.WellFormed)
    (hcast : cast c.channel.data = .ok loop) :
    ∃ effect, handleWrite cast c socket = .ok effect ∧ OutputOnly c effect.connection := by
  rw [handleWrite_eq cast socket hwf, channelEventDisableWrite_ok hcast]
  split_ifs <;> exact ⟨_, rfl, rfl⟩

/-- A writable event gives what the socket takes to it, and tells the application of it. -/
theorem handleWrite_moves {cast : ChannelData → Result LoopId} {c : TcpConnection}
    {socket : WriteAnswer} {effect : Effect} (hwf : c.outputBuffer.WellFormed)
    (hret : handleWrite cast c socket = .ok effect) :
    effect.connection.outputBuffer.WellFormed ∧
      effect.connection.stream.accepted =
        c.stream.accepted ++ socket.taken c.outputBuffer.readable ∧
      effect.connection.outputBuffer.readable =
        c.outputBuffer.readable.drop (socket.taken c.outputBuffer.readable).length ∧
      (effect.callback = some .onWriteCompleted ↔ c.callbacks.onWriteCompleted = true ∧
        socket.taken c.outputBuffer.readable ≠ []) := by
  obtain ⟨hwf', hread'⟩ := advance_ok hwf (socket.length_taken_le c.outputBuffer.readable)
  have hcompletion : c.completion = some .onWriteCompleted ↔
      c.callbacks.onWriteCompleted = true := by
    simp [TcpConnection.completion]
  rw [handleWrite_eq cast socket hwf] at hret
  by_cases hnil : socket.taken c.outputBuffer.readable = []
  · rw [if_pos hnil] at hret
    cases hret
    simp [hwf, hnil]
  rw [if_neg hnil] at hret
  split at hret
  · obtain ⟨⟨channel, post⟩, -, hret⟩ := bind_eq_ok.mp hret
    cases hret
    exact ⟨hwf', rfl, hread', hcompletion.trans (and_iff_left hnil).symm⟩
  · cases hret
    exact ⟨hwf', rfl, hread', hcompletion.trans (and_iff_left hnil).symm⟩

/-- Whatever the cast does, a writable event that returns keeps the bytes accepted
and queued. -/
theorem handleWrite_conserves {cast : ChannelData → Result LoopId} {c : TcpConnection}
    {socket : WriteAnswer} {effect : Effect} (hwf : c.outputBuffer.WellFormed)
    (hret : handleWrite cast c socket = .ok effect) :
    effect.connection.outputBuffer.WellFormed ∧
      effect.connection.stream.accepted ++ effect.connection.outputBuffer.readable =
        c.stream.accepted ++ c.outputBuffer.readable := by
  obtain ⟨hwf', haccepted, hread, -⟩ := handleWrite_moves hwf hret
  refine ⟨hwf', ?_⟩
  rw [haccepted, hread, List.append_assoc, socket.taken_append_drop]

/-! ### Sends -/

/-- The direct write of a send fails because the peer has reset the connection. -/
def SendFaults (c : TcpConnection) (socket : WriteAnswer) : Prop :=
  WritesDirectly c ∧ (socket = .failed .epipe ∨ socket = .failed .econnreset)

instance (c : TcpConnection) (socket : WriteAnswer) : Decidable (SendFaults c socket) :=
  inferInstanceAs (Decidable (_ ∧ _))

/-- The bytes of a send that its direct write hands to the socket. -/
def directlyTaken (c : TcpConnection) (bytes : List Byte) (socket : WriteAnswer) : List Byte :=
  if WritesDirectly c then socket.taken bytes else []

theorem directlyTaken_append_drop (c : TcpConnection) (bytes : List Byte) (socket : WriteAnswer) :
    directlyTaken c bytes socket ++ bytes.drop (directlyTaken c bytes socket).length = bytes := by
  unfold directlyTaken
  split_ifs
  · exact socket.taken_append_drop bytes
  · simp

theorem length_directlyTaken_le (c : TcpConnection) (bytes : List Byte) (socket : WriteAnswer) :
    (directlyTaken c bytes socket).length ≤ bytes.length := by
  unfold directlyTaken
  split_ifs
  · exact socket.length_taken_le bytes
  · simp

theorem directlyTaken_of_faults {c : TcpConnection} {socket : WriteAnswer} (bytes : List Byte)
    (h : SendFaults c socket) : directlyTaken c bytes socket = [] := by
  obtain ⟨hdirect, rfl | rfl⟩ := h <;> simp [directlyTaken, WriteAnswer.taken]

/-- A direct write overtakes nothing: it takes bytes only while the queue is empty. -/
theorem OutputInv.accepted_queued {c : TcpConnection} {handed : List Byte}
    (hinv : OutputInv c handed) (bytes rest : List Byte) (socket : WriteAnswer) :
    c.stream.accepted ++ directlyTaken c bytes socket ++ (c.outputBuffer.readable ++ rest) =
      handed ++ (directlyTaken c bytes socket ++ rest) := by
  have hcomm : directlyTaken c bytes socket ++ c.outputBuffer.readable =
      c.outputBuffer.readable ++ directlyTaken c bytes socket := by
    by_cases hd : WritesDirectly c
    · rw [hinv.writesDirectly.mp hd, List.append_nil, List.nil_append]
    · simp [directlyTaken, hd]
  calc c.stream.accepted ++ directlyTaken c bytes socket ++ (c.outputBuffer.readable ++ rest)
      = c.stream.accepted ++ (directlyTaken c bytes socket ++ c.outputBuffer.readable) ++ rest := by
        simp only [List.append_assoc]
    _ = handed ++ (directlyTaken c bytes socket ++ rest) := by
        rw [hcomm, ← hinv.queued]
        simp only [List.append_assoc]

theorem directWrite_eq (c : TcpConnection) (data : List Byte) {n : ℕ} (socket : WriteAnswer)
    (hn : n ≤ data.length) :
    directWrite c data n socket =
      .ok ({ c with stream := { c.stream with
          accepted := c.stream.accepted ++ directlyTaken c (data.take n) socket } },
        ((directlyTaken c (data.take n) socket).length : ℤ), decide (SendFaults c socket)) := by
  have hfetch : fetch data 0 n = .ok (data.take n) := by
    simpa using fetch_natCast data (i := 0) (n := n) (by omega)
  by_cases hdirect : WritesDirectly c
  · cases socket with
    | accepts room =>
      simp [directWrite, directlyTaken, SendFaults, WriteAnswer.taken, hdirect, hfetch]
    | failed errno =>
      cases errno <;>
        simp [directWrite, directlyTaken, SendFaults, WriteAnswer.taken, hdirect, hfetch]
  · simp [directWrite, directlyTaken, SendFaults, hdirect]

/-- Nothing is left, or the connection is reset: nothing is queued. -/
theorem bufferRest_skips (cast : ChannelData → Result LoopId) (c : TcpConnection)
    (data : List Byte) {size sizeWritten : ℤ} {fault : Bool} (answer : Alloc Byte)
    (h : fault = true ∨ size ≤ sizeWritten) :
    bufferRest cast c data size sizeWritten fault answer = .ok ⟨c, [], none⟩ := by
  have hneg : ¬ (fault = false ∧ 0 < size - sizeWritten) := by
    rintro ⟨rfl, hpos⟩
    rcases h with h | h
    · cases h
    · omega
  simp only [bufferRest, hneg, ↓reduceIte]

/-- The rest goes to the back of the queue. -/
theorem bufferRest_eq {cast : ChannelData → Result LoopId} {c : TcpConnection} {data : List Byte}
    {n k : ℕ} {answer : Alloc Byte} (hwf : c.outputBuffer.WellFormed) (hk : k < n)
    (hn : n ≤ data.length) (hmax : (n : ℤ) ≤ intMax)
    (hserved : RoomServed c.outputBuffer ((n : ℤ) - k) answer) :
    ∃ b : Buffer, b.WellFormed ∧ b.readable = c.outputBuffer.readable ++ (data.take n).drop k ∧
      bufferRest cast c data n k false answer =
        if channelEventIsWriteable (some c.channel) then .ok ⟨{ c with outputBuffer := b }, [], none⟩
        else channelEventEnableWrite cast c.channel >>= fun r =>
          .ok ⟨{ c with outputBuffer := b, channel := r.1 }, [r.2], none⟩ := by
  have hleft : (n : ℤ) - k = ((n - k : ℕ) : ℤ) := by omega
  rw [hleft] at hserved
  obtain ⟨b, happend, hwf', hread⟩ := bufferAppend_ok (data.drop k) hwf
    (by omega : 0 < n - k) (by omega) (by simp; omega) hserved
  rw [← List.drop_take] at hread
  refine ⟨b, hwf', hread, ?_⟩
  have hpos : (0 : ℤ) < ((n - k : ℕ) : ℤ) := by omega
  simp only [bufferRest, hleft, true_and, hpos, ↓reduceIte, Int.toNat_natCast, happend, ok_bind]

/-- If the cast succeeds, write interest is on then. -/
theorem bufferRest_ok {cast : ChannelData → Result LoopId} {c : TcpConnection} {loop : LoopId}
    {data : List Byte} {n k : ℕ} {answer : Alloc Byte} (hwf : c.outputBuffer.WellFormed)
    (hcast : cast c.channel.data = .ok loop) (hk : k < n) (hn : n ≤ data.length)
    (hmax : (n : ℤ) ≤ intMax) (hserved : RoomServed c.outputBuffer ((n : ℤ) - k) answer) :
    ∃ effect, bufferRest cast c data n k false answer = .ok effect ∧
      effect.connection.outputBuffer.WellFormed ∧
      effect.connection.outputBuffer.readable =
        c.outputBuffer.readable ++ (data.take n).drop k ∧
      channelEventIsWriteable (some effect.connection.channel) = true ∧
      effect.connection.stream = c.stream ∧ OutputOnly c effect.connection := by
  obtain ⟨b, hwf', hread, heq⟩ := bufferRest_eq hwf hk hn hmax hserved
  cases hw : channelEventIsWriteable (some c.channel) with
  | true =>
    refine ⟨⟨{ c with outputBuffer := b }, [], none⟩, ?_, hwf', hread, hw, rfl, rfl⟩
    rw [heq, hw]
    rfl
  | false =>
    refine ⟨⟨{ c with
      outputBuffer := b
      channel := { c.channel with events := c.channel.events ||| eventWrite } },
      [⟨loop, c.channel.fd, .update⟩], none⟩, ?_, hwf', hread, isWriteable_enabled c.channel,
      rfl, rfl⟩
    rw [heq, hw, channelEventEnableWrite_ok hcast]
    rfl

theorem sendData_of_faults (cast : ChannelData → Result LoopId) {c : TcpConnection}
    {data : List Byte} {n : ℕ} {socket : WriteAnswer} (answer : Alloc Byte)
    (h : SendFaults c socket) (hn : n ≤ data.length) :
    tcpConnectionSendData cast c data n socket answer = .ok (⟨c, [], none⟩, 0) := by
  have hdirect := directWrite_eq c data socket hn
  rw [directlyTaken_of_faults _ h, decide_eq_true h, List.append_nil] at hdirect
  simp only [tcpConnectionSendData, hdirect, ok_bind, bufferRest_skips cast _ _ answer (.inl rfl)]
  rfl

/-- A send that is not reset hands all of its bytes over. -/
theorem sendData_ok (cast : ChannelData → Result LoopId) {c : TcpConnection} {loop : LoopId}
    {handed : List Byte} {data : List Byte} {n : ℕ} {socket : WriteAnswer} {answer : Alloc Byte}
    (hinv : OutputInv c handed) (hcast : cast c.channel.data = .ok loop)
    (hfault : ¬ SendFaults c socket) (hn : n ≤ data.length) (hmax : (n : ℤ) ≤ intMax)
    (hserved : RoomServed c.outputBuffer
      ((n : ℤ) - (directlyTaken c (data.take n) socket).length) answer) :
    ∃ effect, tcpConnectionSendData cast c data n socket answer =
        .ok (effect, ((directlyTaken c (data.take n) socket).length : ℤ)) ∧
      OutputInv effect.connection (handed ++ data.take n) ∧ OutputOnly c effect.connection := by
  have hdirect := directWrite_eq c data socket hn
  rw [decide_eq_false hfault] at hdirect
  set taken := directlyTaken c (data.take n) socket with htaken
  have hle : taken.length ≤ n :=
    (length_directlyTaken_le c (data.take n) socket).trans (List.length_take_le _ _)
  have hsplit := directlyTaken_append_drop c (data.take n) socket
  rw [← htaken] at hsplit
  set c₁ : TcpConnection := { c with stream := { c.stream with
    accepted := c.stream.accepted ++ taken } } with hc₁
  rcases Nat.lt_or_ge taken.length n with hlt | hge
  · -- the rest is queued behind what the direct write took
    obtain ⟨effect, hrest, hwf, hread, hwriteable, hstream, honly⟩ :=
      bufferRest_ok (c := c₁) hinv.wellFormed hcast hlt hn hmax hserved
    refine ⟨effect, by simp only [tcpConnectionSendData, hdirect, ok_bind, hrest], ⟨hwf, ?_, ?_⟩,
      (show OutputOnly c c₁ from rfl).trans honly⟩
    · rw [hread, hstream]
      refine (hinv.accepted_queued (data.take n) _ socket).trans ?_
      rw [← htaken, hsplit]
    · rw [hwriteable, hread]
      have : (data.take n).drop taken.length ≠ [] := by
        rw [ne_eq, List.drop_eq_nil_iff, List.length_take]; omega
      simp [this]
  · -- the direct write took everything, or there is nothing to send
    have hall : taken = data.take n := by
      rw [← hsplit, List.drop_of_length_le (by rw [List.length_take]; omega), List.append_nil]
    refine ⟨⟨c₁, [], none⟩, ?_, ⟨hinv.wellFormed, ?_, hinv.interest⟩, rfl⟩
    · simp only [tcpConnectionSendData, hdirect, ok_bind]
      rw [bufferRest_skips cast _ _ answer (.inr (by omega)), ok_bind]
    · have hqueued := hinv.accepted_queued (data.take n) [] socket
      rw [List.append_nil, List.append_nil, ← htaken, hall] at hqueued
      rw [hc₁, hall]
      exact hqueued

/-- The rest of a send gives the socket nothing. -/
theorem bufferRest_stream {cast : ChannelData → Result LoopId} {c : TcpConnection}
    {data : List Byte} {size sizeWritten : ℤ} {fault : Bool} {answer : Alloc Byte} {effect : Effect}
    (hret : bufferRest cast c data size sizeWritten fault answer = .ok effect) :
    effect.connection.stream = c.stream := by
  simp only [bufferRest] at hret
  split_ifs at hret
  · obtain ⟨r, -, hret⟩ := bind_eq_ok.mp hret
    cases hret
    rfl
  · obtain ⟨r, -, hret⟩ := bind_eq_ok.mp hret
    obtain ⟨⟨channel, post⟩, -, hret⟩ := bind_eq_ok.mp hret
    cases hret
    rfl
  · cases hret
    rfl

theorem sendData_accepted {cast : ChannelData → Result LoopId} {c : TcpConnection}
    {data : List Byte} {n : ℕ} {socket : WriteAnswer} {answer : Alloc Byte} {effect : Effect}
    {result : ℤ} (hn : n ≤ data.length)
    (hret : tcpConnectionSendData cast c data n socket answer = .ok (effect, result)) :
    effect.connection.stream.accepted =
      c.stream.accepted ++ directlyTaken c (data.take n) socket := by
  simp only [tcpConnectionSendData, directWrite_eq c data socket hn, ok_bind] at hret
  obtain ⟨effect', hrest, hret⟩ := bind_eq_ok.mp hret
  cases hret
  rw [bufferRest_stream hrest]

/-! ### What the socket takes -/

/-- The bytes that a socket has taken, and those that wait for it. -/
structure Outgoing where
  taken : List Byte
  waiting : List Byte

namespace Outgoing

/-- The socket is offered the bytes of a send while none wait. If the peer has reset the
connection, they are dropped. -/
def send (o : Outgoing) (bytes : List Byte) (socket : WriteAnswer) : Outgoing :=
  if o.waiting ≠ [] then { o with waiting := o.waiting ++ bytes }
  else if socket = .failed .epipe ∨ socket = .failed .econnreset then o
  else ⟨o.taken ++ socket.taken bytes, bytes.drop (socket.taken bytes).length⟩

/-- The socket is offered the bytes that wait. -/
def flush (o : Outgoing) (socket : WriteAnswer) : Outgoing :=
  ⟨o.taken ++ socket.taken o.waiting, o.waiting.drop (socket.taken o.waiting).length⟩

end Outgoing

/-- The connection has given the socket what it has taken, and queues what waits. -/
structure TcpConnection.Carries (c : TcpConnection) (o : Outgoing) : Prop where
  accepted : c.stream.accepted = o.taken
  readable : c.outputBuffer.readable = o.waiting

theorem TcpConnection.Carries.flush {cast : ChannelData → Result LoopId} {c : TcpConnection}
    {o : Outgoing} {socket : WriteAnswer} {effect : Effect} (h : c.Carries o)
    (hwf : c.outputBuffer.WellFormed) (hret : handleWrite cast c socket = .ok effect) :
    effect.connection.Carries (o.flush socket) := by
  obtain ⟨-, haccepted, hread, -⟩ := handleWrite_moves hwf hret
  rw [h.readable] at haccepted hread
  rw [h.accepted] at haccepted
  exact ⟨haccepted, hread⟩

/-- With the bytes handed over known, it is enough to know what the socket has taken. -/
theorem TcpConnection.Carries.of_accepted {c : TcpConnection} {o : Outgoing} {handed : List Byte}
    (hinv : OutputInv c handed) (haccepted : c.stream.accepted = o.taken)
    (hhanded : o.taken ++ o.waiting = handed) : c.Carries o where
  accepted := haccepted
  readable := by
    have hqueued := hinv.queued
    rw [haccepted, ← hhanded] at hqueued
    exact List.append_cancel_left hqueued

/-- A send that is not reset. -/
theorem TcpConnection.Carries.send {c c' : TcpConnection} {o : Outgoing} {bytes handed : List Byte}
    {socket : WriteAnswer} (h : c.Carries o) (hinv : OutputInv c handed)
    (hfault : ¬ SendFaults c socket) (hinv' : OutputInv c' (handed ++ bytes))
    (haccepted : c'.stream.accepted = c.stream.accepted ++ directlyTaken c bytes socket) :
    c'.Carries (o.send bytes socket) := by
  have hhanded : o.taken ++ o.waiting = handed := by
    rw [← h.accepted, ← h.readable, hinv.queued]
  rw [h.accepted] at haccepted
  by_cases hwaiting : o.waiting = []
  · have hdirect : WritesDirectly c := hinv.writesDirectly.mpr (h.readable.trans hwaiting)
    have hreset : ¬ (socket = .failed .epipe ∨ socket = .failed .econnreset) :=
      fun hreset => hfault ⟨hdirect, hreset⟩
    have hsend : o.send bytes socket =
        ⟨o.taken ++ socket.taken bytes, bytes.drop (socket.taken bytes).length⟩ := by
      simp [Outgoing.send, hwaiting, hreset]
    rw [directlyTaken, if_pos hdirect] at haccepted
    rw [hsend]
    refine .of_accepted hinv' haccepted ?_
    rw [List.append_assoc, socket.taken_append_drop, ← hhanded, hwaiting, List.append_nil]
  · have hqueued : ¬ WritesDirectly c := by
      rw [hinv.writesDirectly, h.readable]
      exact hwaiting
    have hsend : o.send bytes socket = { o with waiting := o.waiting ++ bytes } := by
      simp [Outgoing.send, hwaiting]
    rw [directlyTaken, if_neg hqueued, List.append_nil] at haccepted
    rw [hsend]
    refine .of_accepted hinv' haccepted ?_
    rw [← List.append_assoc, hhanded]

/-- A send that is. -/
theorem TcpConnection.Carries.send_reset {c : TcpConnection} {o : Outgoing} {handed : List Byte}
    {socket : WriteAnswer} (h : c.Carries o) (hinv : OutputInv c handed)
    (hfault : SendFaults c socket) (bytes : List Byte) : c.Carries (o.send bytes socket) := by
  have hwaiting : o.waiting = [] := h.readable.symm.trans (hinv.writesDirectly.mp hfault.1)
  have hsend : o.send bytes socket = o := by
    simp [Outgoing.send, hwaiting, hfault.2]
  rwa [hsend]

/-! ### Runs -/

structure SendCall where
  data : List Byte
  size : ℤ
  socket : WriteAnswer
  answer : Alloc Byte

def SendCall.bytes (call : SendCall) : List Byte := call.data.take call.size.toNat

/-- A connection, the data of the sends that were not reset, and the operations
posted. -/
structure OutputRun where
  connection : TcpConnection
  handed : List Byte
  posts : List Post

def OutputRun.send (cast : ChannelData → Result LoopId) (s : OutputRun) (call : SendCall) :
    Result OutputRun := do
  let (effect, _) ←
    tcpConnectionSendData cast s.connection call.data call.size call.socket call.answer
  .ok ⟨effect.connection,
    if SendFaults s.connection call.socket then s.handed else s.handed ++ call.bytes,
    s.posts ++ effect.posts⟩

/-- A writable event carries the sends that `on_write_completed` makes if it is
invoked; every other callback's sends are events of their own. -/
inductive OutputEvent where
  | send (call : SendCall)
  | writable (socket : WriteAnswer) (onWriteCompleted : List SendCall)

def OutputRun.step (cast : ChannelData → Result LoopId) (s : OutputRun) :
    OutputEvent → Result OutputRun
  | .send call => s.send cast call
  | .writable socket calls => do
    let effect ← handleWrite cast s.connection socket
    let s := { s with connection := effect.connection, posts := s.posts ++ effect.posts }
    match effect.callback with
    | some .onWriteCompleted => calls.foldlM (OutputRun.send cast) s
    | _ => .ok s

/-- The size is an `int` that counts bytes of the data, and the allocation for what
the direct write leaves succeeds. -/
structure SendCall.Admitted (s : OutputRun) (call : SendCall) : Prop where
  zero_le_size : 0 ≤ call.size
  size_le_length : call.size ≤ call.data.length
  size_le_max : call.size ≤ intMax
  served : ¬ SendFaults s.connection call.socket → RoomServed s.connection.outputBuffer
    (call.size - (directlyTaken s.connection call.bytes call.socket).length) call.answer

def OutputEvent.Admitted (cast : ChannelData → Result LoopId) (s : OutputRun) :
    OutputEvent → Prop
  | .send call => call.Admitted s
  | .writable socket calls => ∀ effect, handleWrite cast s.connection socket = .ok effect →
      Admissible (OutputRun.send cast) SendCall.Admitted
        { s with connection := effect.connection, posts := s.posts ++ effect.posts } calls

/-- The run of a connection that was `c₀` at its start. -/
structure OutputRun.Inv (c₀ : TcpConnection) (s : OutputRun) : Prop where
  output : OutputInv s.connection s.handed
  only : OutputOnly c₀ s.connection

theorem OutputRun.send_inv {cast : ChannelData → Result LoopId} {c₀ : TcpConnection} {loop : LoopId}
    (hcast : cast c₀.channel.data = .ok loop) (s : OutputRun) (call : SendCall)
    (hinv : s.Inv c₀) (hadm : call.Admitted s) : ∃ s', s.send cast call = .ok s' ∧ s'.Inv c₀ := by
  obtain ⟨data, size, socket, answer⟩ := call
  obtain ⟨h0, hlen, hmax, hserved⟩ := hadm
  obtain ⟨n, rfl⟩ : ∃ n : ℕ, size = n := ⟨size.toNat, by simp only at h0; omega⟩
  have hn : n ≤ data.length := by simp only at hlen; omega
  by_cases hfault : SendFaults s.connection socket
  · refine ⟨s, ?_, hinv⟩
    simp only [OutputRun.send, sendData_of_faults cast answer hfault hn, ok_bind, if_pos hfault,
      List.append_nil]
  · obtain ⟨effect, hsend, hout, honly⟩ := sendData_ok cast
      hinv.output (by rw [hinv.only.channel_data, hcast]) hfault hn hmax (hserved hfault)
    refine ⟨⟨effect.connection, s.handed ++ data.take n, s.posts ++ effect.posts⟩, ?_, hout,
      hinv.only.trans honly⟩
    simp only [OutputRun.send, hsend, ok_bind, if_neg hfault]
    rfl

/-- What a run of sends and writable events transmits, if `on_write_completed` is called after
every event that gives the socket something. -/
def Outgoing.step (completes : Bool) (o : Outgoing) : OutputEvent → Outgoing
  | .send call => o.send call.bytes call.socket
  | .writable socket calls =>
    if completes = true ∧ socket.taken o.waiting ≠ [] then
      calls.foldl (fun o call => o.send call.bytes call.socket) (o.flush socket)
    else o.flush socket

theorem OutputRun.send_carries {cast : ChannelData → Result LoopId} {c₀ : TcpConnection}
    {loop : LoopId} (hcast : cast c₀.channel.data = .ok loop) (s : OutputRun) (o : Outgoing)
    (call : SendCall) (h : s.Inv c₀ ∧ s.connection.Carries o) (hadm : call.Admitted s) :
    ∃ s', s.send cast call = .ok s' ∧ s'.Inv c₀ ∧
      s'.connection.Carries (o.send call.bytes call.socket) := by
  obtain ⟨hinv, hcarries⟩ := h
  obtain ⟨s', hs', hinv'⟩ := OutputRun.send_inv hcast s call hinv hadm
  refine ⟨s', hs', hinv', ?_⟩
  obtain ⟨n, hn⟩ : ∃ n : ℕ, call.size = n := ⟨call.size.toNat, by have := hadm.zero_le_size; omega⟩
  have hbytes : call.bytes = call.data.take n := by rw [SendCall.bytes, hn, Int.toNat_natCast]
  have hlen : n ≤ call.data.length := by have := hadm.size_le_length; omega
  obtain ⟨⟨effect, result⟩, hsend, hret⟩ := bind_eq_ok.mp hs'
  cases hret
  rw [hn] at hsend
  by_cases hfault : SendFaults s.connection call.socket
  · rw [sendData_of_faults cast call.answer hfault hlen] at hsend
    cases hsend
    exact hcarries.send_reset hinv.output hfault call.bytes
  · have hout := hinv'.output
    simp only [if_neg hfault] at hout
    refine hcarries.send hinv.output hfault hout ?_
    rw [hbytes]
    exact sendData_accepted hlen hsend

theorem OutputRun.step_carries {cast : ChannelData → Result LoopId} {c₀ : TcpConnection}
    {loop : LoopId} (hcast : cast c₀.channel.data = .ok loop) (s : OutputRun) (o : Outgoing)
    (event : OutputEvent) (h : s.Inv c₀ ∧ s.connection.Carries o) (hadm : event.Admitted cast s) :
    ∃ s', s.step cast event = .ok s' ∧ s'.Inv c₀ ∧
      s'.connection.Carries (o.step c₀.callbacks.onWriteCompleted event) := by
  cases event with
  | send call => exact OutputRun.send_carries hcast s o call h hadm
  | writable socket calls =>
    obtain ⟨hinv, hcarries⟩ := h
    obtain ⟨effect, hwrite, hout, honly⟩ := handleWrite_ok cast socket hinv.output
      (by rw [hinv.only.channel_data, hcast])
    obtain ⟨-, -, -, hcallback⟩ := handleWrite_moves hinv.output.wellFormed hwrite
    rw [hinv.only.callbacks, hcarries.readable] at hcallback
    have hmid : OutputRun.Inv c₀
        { s with connection := effect.connection, posts := s.posts ++ effect.posts } :=
      ⟨hout, hinv.only.trans honly⟩
    have hflush := hcarries.flush hinv.output.wellFormed hwrite
    simp only [OutputRun.step, hwrite, ok_bind, Outgoing.step, ← hcallback]
    split
    · rename_i hcompleted
      rw [if_pos hcompleted]
      exact foldlM_simulates (OutputRun.send_carries hcast) ⟨hmid, hflush⟩ (hadm effect hwrite)
    · rename_i hnot
      rw [if_neg hnot]
      exact ⟨_, rfl, hmid, hflush⟩

theorem outputInv_new {id : ConnectionId} {fd : ℤ} {loop : LoopId} {callbacks : Callbacks}
    {input output : ℕ → Byte} {c : TcpConnection}
    (hnew : tcpConnectionNew id fd loop callbacks (some input) (some output) = some c) :
    OutputInv c [] ∧ c.inputBuffer.WellFormed ∧ c.inputBuffer.readable = [] ∧
      bufferWriteableSize c.inputBuffer = initBufferSize ∧
      bufferWriteableSize c.outputBuffer = initBufferSize ∧
      c.stream = ⟨[], []⟩ ∧ c.callbacks = callbacks ∧ c.loop = loop ∧
      c.channel = channelNew fd eventRead (some .handleRead) (some .handleWrite)
        (.tcpConnection id) := by
  obtain ⟨b, hb, hwf, hread, hroom⟩ := bufferNew_readable input
  obtain ⟨b', hb', hwf', hread', hroom'⟩ := bufferNew_readable output
  simp only [tcpConnectionNew, hb, hb', Option.bind_eq_bind, Option.bind_some,
    Option.some.injEq] at hnew
  subst hnew
  refine ⟨⟨hwf', by simp [hread'], ?_⟩, hwf, hread, hroom, hroom', rfl, rfl, rfl, rfl⟩
  simp [hread', channelEventIsWriteable, channelNew, eventRead, eventWrite]

/-- Over every run of sends and writable events, what the socket has accepted and
what is queued are the data of the sends that were not reset, in order; write
interest is on exactly while something is queued; a reset send changes nothing. The socket
has taken what the calls of `write` have given it, and the rest is queued. -/
theorem output_path (cast : ChannelData → Result LoopId) {id : ConnectionId} {fd : ℤ}
    {loop : LoopId} {callbacks : Callbacks} {input output : ℕ → Byte} {c₀ : TcpConnection}
    (hnew : tcpConnectionNew id fd loop callbacks (some input) (some output) = some c₀)
    (hcast : cast (.tcpConnection id) = .ok loop) (events : List OutputEvent)
    (hadm : Admissible (OutputRun.step cast) (fun s event => event.Admitted cast s)
      ⟨c₀, [], []⟩ events) :
    ∃ s, events.foldlM (OutputRun.step cast) ⟨c₀, [], []⟩ = .ok s ∧
      s.connection.stream.accepted ++ s.connection.outputBuffer.readable = s.handed ∧
      (channelEventIsWriteable (some s.connection.channel) = true ↔
        s.connection.outputBuffer.readable ≠ []) ∧
      s.connection.Carries (events.foldl (Outgoing.step callbacks.onWriteCompleted) ⟨[], []⟩) ∧
      ∀ call : SendCall, call.Admitted s → SendFaults s.connection call.socket →
        s.send cast call = .ok s := by
  obtain ⟨hout, -, -, -, -, hstream, hcallbacks, hloop, hchannel⟩ := outputInv_new hnew
  have hcast₀ : cast c₀.channel.data = .ok c₀.loop := by rw [hchannel, hloop]; exact hcast
  have hcarries : c₀.Carries ⟨[], []⟩ := .of_accepted hout (by rw [hstream]) rfl
  obtain ⟨s, hs, hinv, hcarries'⟩ := foldlM_simulates (OutputRun.step_carries hcast₀)
    ⟨⟨hout, OutputOnly.refl c₀⟩, hcarries⟩ hadm
  rw [hcallbacks] at hcarries'
  refine ⟨s, hs, hinv.output.queued, hinv.output.interest, hcarries', ?_⟩
  intro call hcall hfault
  obtain ⟨n, hn⟩ : ∃ n : ℕ, call.size = n := ⟨call.size.toNat, by have := hcall.zero_le_size; omega⟩
  have hlen := hcall.size_le_length
  simp only [OutputRun.send, hn, ok_bind, if_pos hfault, List.append_nil,
    sendData_of_faults cast call.answer hfault (by omega : n ≤ call.data.length)]

/-- Two bytes, of which the direct write takes one, and a writable event. -/
theorem output_path_short_write :
    ∃ c₀ s, tcpConnectionNew 0 5 0 ⟨true, true, true, true⟩ (some fun _ => 0) (some fun _ => 0) =
        some c₀ ∧
      [.send ⟨[1, 2], 2, .accepts 1, none⟩, .writable (.accepts 5) []].foldlM
        (OutputRun.step fun _ => .ok 0) ⟨c₀, [], []⟩ = .ok s ∧
      s.connection.stream.accepted = [1, 2] ∧ s.connection.outputBuffer.readable = [] ∧
      s.handed = [1, 2] := by
  obtain ⟨c₀, hnew⟩ : ∃ c₀, tcpConnectionNew 0 5 0 ⟨true, true, true, true⟩ (some fun _ => 0)
      (some fun _ => 0) = some c₀ := ⟨_, rfl⟩
  obtain ⟨-, -, -, -, hroom, -⟩ := outputInv_new hnew
  have hadm : SendCall.Admitted ⟨c₀, [], []⟩ ⟨[1, 2], 2, .accepts 1, none⟩ := by
    refine ⟨by decide, by decide, by decide, fun _ => roomServed_of_le none ?_⟩
    rw [hroom]
    show (2 : ℤ) - _ ≤ _
    unfold initBufferSize
    omega
  obtain ⟨s, hs, hqueued, -, hcarries, -⟩ := output_path (fun _ => .ok 0) hnew rfl
    [.send ⟨[1, 2], 2, .accepts 1, none⟩, .writable (.accepts 5) []]
    ⟨hadm, fun _ _ => ⟨fun _ _ => trivial, fun _ _ => trivial⟩⟩
  have haccepted : s.connection.stream.accepted = [1, 2] := hcarries.accepted
  have hread : s.connection.outputBuffer.readable = [] := hcarries.readable
  exact ⟨c₀, s, hnew, hs, haccepted, hread, by rw [← hqueued, haccepted, hread]; rfl⟩

end OsProgramming.Reactor
