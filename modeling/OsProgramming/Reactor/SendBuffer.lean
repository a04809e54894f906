import OsProgramming.Reactor.OutputPath

/-! Sending a buffer. `tcp_connection_send_data` returns what the direct write took
and queues the rest; `tcp_connection_send_buffer` advances its source by the
returned count only, so what was queued also stays in the source. -/

namespace OsProgramming.Reactor

open Library

theorem Buffer.WellFormed.take_drop {b : Buffer} (h : b.WellFormed) :
    (b.data.drop b.readIndex.toNat).take b.readable.length = b.readable ∧
      b.readable.length ≤ (b.data.drop b.readIndex.toNat).length ∧
      (b.readable.length : ℤ) ≤ intMax := by
  obtain ⟨w, rfl, hmax⟩ := h.exists_window
  have hhi := w.hi_le_length
  rw [Buffer.readable_ofWindow, Window.length_contents]
  refine ⟨w.contents_eq_take_drop.symm, ?_, by omega⟩
  show w.hi - w.lo ≤ (w.cells.drop w.lo).length
  rw [List.length_drop]; omega

/-- Whatever the cast does, a rest that is queued without a fault is queued whole. -/
theorem bufferRest_conserves {cast : ChannelData → Result LoopId} {c : TcpConnection}
    {data : List Byte} {n k : ℕ} {answer : Alloc Byte} {effect : Effect}
    (hwf : c.outputBuffer.WellFormed) (hk : k < n) (hn : n ≤ data.length) (hmax : (n : ℤ) ≤ intMax)
    (hret : bufferRest cast c data n k false answer = .ok effect) :
    effect.connection.outputBuffer.WellFormed ∧
      effect.connection.outputBuffer.readable =
        c.outputBuffer.readable ++ (data.take n).drop k ∧
      effect.connection.stream = c.stream := by
  have hleft : (n : ℤ) - k = ((n - k : ℕ) : ℤ) := by omega
  have hpos : (0 : ℤ) < ((n - k : ℕ) : ℤ) := by omega
  simp only [bufferRest, hleft, true_and, hpos, ↓reduceIte, Int.toNat_natCast] at hret
  obtain ⟨r, happend, hret⟩ := bind_eq_ok.mp hret
  obtain ⟨b', happend', hwf', hread⟩ := bufferAppend_ok (data.drop k) hwf
    (by omega : 0 < n - k) (by omega) (by rw [List.length_drop]; omega)
    (bufferAppend_served hwf (by omega) happend)
  obtain rfl : r = (b', true) := Except.ok.inj (happend.symm.trans happend')
  rw [← List.drop_take] at hread
  split at hret
  · cases hret
    exact ⟨hwf', hread, rfl⟩
  · obtain ⟨⟨channel, post⟩, -, hret⟩ := bind_eq_ok.mp hret
    cases hret
    exact ⟨hwf', hread, rfl⟩

/-- The part of a send that is queued. -/
def queuedBySend (c : TcpConnection) (bytes : List Byte) (socket : WriteAnswer) : List Byte :=
  if SendFaults c socket then [] else bytes.drop (directlyTaken c bytes socket).length

/-- What a returning call does to the socket, the queue and the source: whatever it
queues stays in the source. -/
theorem sendBuffer_returns {cast : ChannelData → Result LoopId} {c : TcpConnection}
    {source source' : Buffer} {socket : WriteAnswer} {answer : Alloc Byte} {effect : Effect} {n : ℤ}
    (hwf : c.outputBuffer.WellFormed) (hsource : source.WellFormed)
    (hret : tcpConnectionSendBuffer cast c source socket answer = .ok (effect, source', n)) :
    effect.connection.outputBuffer.WellFormed ∧ source'.WellFormed ∧
      effect.connection.stream.accepted =
        c.stream.accepted ++ directlyTaken c source.readable socket ∧
      effect.connection.outputBuffer.readable =
        c.outputBuffer.readable ++ queuedBySend c source.readable socket ∧
      source'.readable =
        source.readable.drop (directlyTaken c source.readable socket).length := by
  obtain ⟨htake, hlen, hmax⟩ := hsource.take_drop
  have hdirect := directWrite_eq c (source.data.drop source.readIndex.toNat) socket hlen
  rw [htake] at hdirect
  simp only [tcpConnectionSendBuffer, tcpConnectionSendData, hsource.readableSize_eq, hdirect,
    ok_bind] at hret
  set taken := directlyTaken c source.readable socket with htaken
  have hle : taken.length ≤ source.readable.length := length_directlyTaken_le c _ socket
  obtain ⟨⟨effect', result⟩, hsend, hret⟩ := bind_eq_ok.mp hret
  obtain ⟨effect'', hrest, hsend⟩ := bind_eq_ok.mp hsend
  cases hsend
  cases hret
  obtain ⟨hwf', hread'⟩ := advance_ok hsource hle
  refine ⟨?_, hwf', ?_, ?_, hread'⟩
  all_goals
    by_cases hfault : SendFaults c socket
    · rw [decide_eq_true hfault, bufferRest_skips cast _ _ answer (.inl rfl)] at hrest
      cases hrest
      simp [queuedBySend, hfault, hwf]
    · rw [decide_eq_false hfault] at hrest
      rcases Nat.lt_or_ge taken.length source.readable.length with hlt | hge
      · obtain ⟨hwf₁, hread₁, hstream⟩ := bufferRest_conserves (by exact hwf) hlt hlen hmax hrest
        rw [htake] at hread₁
        simp [queuedBySend, hfault, hwf₁, hread₁, hstream, ← htaken]
      · rw [bufferRest_skips cast _ _ answer (.inr (by omega))] at hrest
        cases hrest
        simp [queuedBySend, hfault, hwf, ← htaken, List.drop_of_length_le hge]

/-- A call that is not reset hands all readable bytes of its source over. -/
theorem sendBuffer_ok (cast : ChannelData → Result LoopId) {c : TcpConnection} {loop : LoopId}
    {handed : List Byte} {source : Buffer} {socket : WriteAnswer} {answer : Alloc Byte}
    (hinv : OutputInv c handed) (hcast : cast c.channel.data = .ok loop)
    (hfault : ¬ SendFaults c socket) (hsource : source.WellFormed)
    (hserved : RoomServed c.outputBuffer ((source.readable.length : ℤ) -
      (directlyTaken c source.readable socket).length) answer) :
    ∃ effect source' n, tcpConnectionSendBuffer cast c source socket answer =
        .ok (effect, source', n) ∧ OutputInv effect.connection (handed ++ source.readable) ∧
      OutputOnly c effect.connection := by
  obtain ⟨htake, hlen, hmax⟩ := hsource.take_drop
  obtain ⟨effect, hsend, hout, honly⟩ := sendData_ok cast hinv hcast hfault hlen hmax
    (by rw [htake]; exact hserved)
  rw [htake] at hsend hout
  set taken := directlyTaken c source.readable socket
  refine ⟨effect, source.advance taken.length, taken.length, ?_, hout, honly⟩
  simp only [tcpConnectionSendBuffer, hsource.readableSize_eq, hsend, ok_bind]
  rfl

/-! ### Exactly once -/

/-- Every byte of the source is, after a call, in exactly one place: taken by the
socket, queued, or still in the source. -/
def ExactlyOnce (c : TcpConnection) (source : Buffer) (c' : TcpConnection) (source' : Buffer) :
    Prop :=
  ∃ sent queued, c'.stream.accepted = c.stream.accepted ++ sent ∧
    c'.outputBuffer.readable = c.outputBuffer.readable ++ queued ∧
    source.readable = sent ++ queued ++ source'.readable

/-- There is nothing to send, or the direct write takes all of it, or it finds the
connection reset. -/
def SendsWhole (c : TcpConnection) (bytes : List Byte) (socket : WriteAnswer) : Prop :=
  bytes = [] ∨ SendFaults c socket ∨
    WritesDirectly c ∧ ∃ room, socket = .accepts room ∧ bytes.length ≤ room

/-- The condition says that a send has nothing to queue. -/
theorem sendsWhole_iff {c : TcpConnection} {bytes : List Byte} {socket : WriteAnswer} :
    SendsWhole c bytes socket ↔ queuedBySend c bytes socket = [] := by
  unfold SendsWhole queuedBySend
  by_cases hfault : SendFaults c socket
  · simp [hfault]
  have hlen : ∀ taken : List Byte, bytes.drop taken.length = [] ↔ bytes.length ≤ taken.length :=
    fun _ => List.drop_eq_nil_iff
  simp only [hfault, ↓reduceIte, false_or, directlyTaken, hlen]
  by_cases hdirect : WritesDirectly c
  · cases socket with
    | failed errno => simp [hdirect, WriteAnswer.taken]
    | accepts room =>
      simp only [hdirect, ↓reduceIte, WriteAnswer.taken, List.length_take, true_and,
        WriteAnswer.accepts.injEq, exists_eq_left', ← List.length_eq_zero_iff]
      omega
  · simp [hdirect]

theorem SendsWhole.skips {c : TcpConnection} {bytes : List Byte} {socket : WriteAnswer}
    (h : SendsWhole c bytes socket) : decide (SendFaults c socket) = true ∨
      (bytes.length : ℤ) ≤ (directlyTaken c bytes socket).length := by
  rw [sendsWhole_iff, queuedBySend] at h
  split_ifs at h with hfault
  · exact .inl (decide_eq_true hfault)
  · exact .inr (by exact_mod_cast List.drop_eq_nil_iff.mp h)

/-- A send that has nothing to queue returns, and needs neither room nor the cast. -/
theorem sendData_whole (cast : ChannelData → Result LoopId) {c : TcpConnection} {data : List Byte}
    {n : ℕ} {socket : WriteAnswer} (answer : Alloc Byte) (hn : n ≤ data.length)
    (h : SendsWhole c (data.take n) socket) :
    tcpConnectionSendData cast c data n socket answer =
      .ok (⟨{ c with stream := { c.stream with
          accepted := c.stream.accepted ++ directlyTaken c (data.take n) socket } }, [], none⟩,
        ((directlyTaken c (data.take n) socket).length : ℤ)) := by
  have hskips := h.skips
  rw [List.length_take, Nat.min_eq_left hn] at hskips
  simp only [tcpConnectionSendData, directWrite_eq c data socket hn, ok_bind,
    bufferRest_skips cast _ _ answer hskips]

theorem exactlyOnce_iff {c : TcpConnection} {source source' : Buffer}
    {socket : WriteAnswer} {effect : Effect}
    (haccepted : effect.connection.stream.accepted =
      c.stream.accepted ++ directlyTaken c source.readable socket)
    (hqueued : effect.connection.outputBuffer.readable =
      c.outputBuffer.readable ++ queuedBySend c source.readable socket)
    (hsource : source'.readable =
      source.readable.drop (directlyTaken c source.readable socket).length) :
    ExactlyOnce c source effect.connection source' ↔ SendsWhole c source.readable socket := by
  rw [sendsWhole_iff]
  have hsplit := directlyTaken_append_drop c source.readable socket
  rw [← hsource] at hsplit
  constructor
  · rintro ⟨sent, queued, hsent, hq, honce⟩
    obtain rfl := List.append_cancel_left (haccepted.symm.trans hsent)
    obtain rfl := List.append_cancel_left (hqueued.symm.trans hq)
    -- the source still has all that was not sent, so nothing can be queued
    have hlen := congrArg List.length (hsplit.trans honce)
    simp only [List.length_append] at hlen
    exact List.length_eq_zero_iff.mp (by omega)
  · intro hnil
    exact ⟨_, _, haccepted, hqueued, by rw [hnil, List.append_nil, hsplit]⟩

theorem sendBuffer_whole (cast : ChannelData → Result LoopId) {c : TcpConnection} {source : Buffer}
    {socket : WriteAnswer} (answer : Alloc Byte) (hsource : source.WellFormed)
    (h : SendsWhole c source.readable socket) :
    ∃ effect source' n, tcpConnectionSendBuffer cast c source socket answer =
        .ok (effect, source', n) ∧ OutputOnly c effect.connection := by
  obtain ⟨htake, hlen, -⟩ := hsource.take_drop
  have hsend := sendData_whole cast answer hlen (by rw [htake]; exact h)
  rw [htake] at hsend
  set taken := directlyTaken c source.readable socket
  refine ⟨⟨{ c with stream := { c.stream with accepted := c.stream.accepted ++ taken } }, [], none⟩,
    source.advance taken.length, taken.length, ?_, rfl⟩
  simp only [tcpConnectionSendBuffer, hsource.readableSize_eq, hsend, ok_bind]
  rfl

/-! ### Runs of one source -/

/-- A connection and the source that the application sends until it is empty. -/
structure ResendRun where
  connection : TcpConnection
  source : Buffer

inductive ResendEvent where
  | send (socket : WriteAnswer) (answer : Alloc Byte)
  | writable (socket : WriteAnswer)

def ResendRun.step (cast : ChannelData → Result LoopId) (s : ResendRun) :
    ResendEvent → Result ResendRun
  | .send socket answer => do
    let (effect, source, _) ← tcpConnectionSendBuffer cast s.connection s.source socket answer
    .ok ⟨effect.connection, source⟩
  | .writable socket => do
    let effect ← handleWrite cast s.connection socket
    .ok { s with connection := effect.connection }

def ResendEvent.Whole (s : ResendRun) : ResendEvent → Prop
  | .send socket _ => SendsWhole s.connection s.source.readable socket
  | .writable _ => True

/-- All bytes, in the order in which they are transmitted. -/
def ResendRun.bytes (s : ResendRun) : List Byte :=
  s.connection.stream.accepted ++ s.connection.outputBuffer.readable ++ s.source.readable

structure ResendRun.Inv (c₀ : TcpConnection) (bytes : List Byte) (s : ResendRun) : Prop where
  output : s.connection.outputBuffer.WellFormed
  source : s.source.WellFormed
  only : OutputOnly c₀ s.connection
  bytes_eq : s.bytes = bytes

theorem ResendRun.step_inv {cast : ChannelData → Result LoopId} {c₀ : TcpConnection} {loop : LoopId}
    {bytes : List Byte} (hcast : cast c₀.channel.data = .ok loop) (s : ResendRun)
    (event : ResendEvent) (hinv : s.Inv c₀ bytes) (hwhole : event.Whole s) :
    ∃ s', s.step cast event = .ok s' ∧ s'.Inv c₀ bytes := by
  obtain ⟨hout, hsource, honly, hbytes⟩ := hinv
  cases event with
  | send socket answer =>
    obtain ⟨effect, source', n, hret, honly'⟩ := sendBuffer_whole cast answer hsource hwhole
    obtain ⟨hout', hsource', haccepted, hqueued, hrest⟩ := sendBuffer_returns hout hsource hret
    refine ⟨⟨effect.connection, source'⟩, by simp only [ResendRun.step, hret, ok_bind], hout',
      hsource', honly.trans honly', ?_⟩
    have hsplit := directlyTaken_append_drop s.connection s.source.readable socket
    rw [← hbytes, ResendRun.bytes, ResendRun.bytes, haccepted, hqueued, hrest,
      sendsWhole_iff.mp hwhole, List.append_nil]
    by_cases hdirect : WritesDirectly s.connection
    · rw [hout.readableSize_eq_zero.mp hdirect.2, List.append_nil, List.append_nil,
        List.append_assoc, hsplit]
    · simp [directlyTaken, hdirect]
  | writable socket =>
    obtain ⟨effect, hret, honly'⟩ := handleWrite_returns socket hout
      (show cast s.connection.channel.data = .ok loop by rw [honly.channel_data, hcast])
    obtain ⟨hout', hkept⟩ := handleWrite_conserves hout hret
    refine ⟨⟨effect.connection, s.source⟩, by simp only [ResendRun.step, hret, ok_bind], hout',
      hsource, honly.trans honly', ?_⟩
    rw [← hbytes, ResendRun.bytes, ResendRun.bytes, hkept]

/-- A call returns with every byte in exactly one place if and only if it has
nothing to queue; in a run of such calls, with any writable events between them,
every byte of the source is transmitted once and in order. -/
theorem send_buffer_exactly_once_iff (cast : ChannelData → Result LoopId) {c : TcpConnection}
    {source : Buffer} (hout : c.outputBuffer.WellFormed) (hsource : source.WellFormed) :
    (∀ socket answer,
      (∃ effect source' n, tcpConnectionSendBuffer cast c source socket answer =
          .ok (effect, source', n) ∧ ExactlyOnce c source effect.connection source') ↔
        SendsWhole c source.readable socket) ∧
    ∀ loop events, cast c.channel.data = .ok loop →
      Admissible (ResendRun.step cast) (fun s event => event.Whole s) ⟨c, source⟩ events →
      ∃ s, events.foldlM (ResendRun.step cast) ⟨c, source⟩ = .ok s ∧
        s.bytes = ResendRun.bytes ⟨c, source⟩ := by
  refine ⟨fun socket answer => ⟨?_, ?_⟩, ?_⟩
  · rintro ⟨effect, source', n, hret, honce⟩
    obtain ⟨-, -, haccepted, hqueued, hrest⟩ := sendBuffer_returns hout hsource hret
    exact (exactlyOnce_iff haccepted hqueued hrest).mp honce
  · intro h
    obtain ⟨effect, source', n, hret, -⟩ := sendBuffer_whole cast answer hsource h
    obtain ⟨-, -, haccepted, hqueued, hrest⟩ := sendBuffer_returns hout hsource hret
    exact ⟨effect, source', n, hret, (exactlyOnce_iff haccepted hqueued hrest).mpr h⟩
  · intro loop events hcast hadm
    obtain ⟨s, hs, hinv⟩ := foldlM_ok (ResendRun.step_inv hcast)
      (s := ⟨c, source⟩) ⟨hout, hsource, OutputOnly.refl c, rfl⟩ hadm
    exact ⟨s, hs, hinv.bytes_eq⟩

/-- A fresh connection and a source of two bytes. -/
theorem exists_twoByteSource :
    ∃ c b source, tcpConnectionNew 0 5 0 ⟨true, true, true, true⟩ (some fun _ => 0)
        (some fun _ => 0) = some c ∧
      bufferNew true (some fun _ => 0) = some b ∧
      bufferAppend b (some [97, 98]) 2 none = .ok (source, true) ∧
      source.WellFormed ∧ source.readable = [97, 98] ∧ OutputInv c [] ∧ WritesDirectly c ∧
      bufferWriteableSize c.outputBuffer = initBufferSize := by
  obtain ⟨c, hnew⟩ : ∃ c, tcpConnectionNew 0 5 0 ⟨true, true, true, true⟩ (some fun _ => 0)
      (some fun _ => 0) = some c := ⟨_, rfl⟩
  obtain ⟨hinv, -, -, -, hroom, -⟩ := outputInv_new hnew
  obtain ⟨b, hb, hwf, hread, hsize⟩ := bufferNew_readable fun _ => 0
  obtain ⟨source, happend, hwf', hread'⟩ := bufferAppend_ok [97, 98] (n := 2) hwf
    (by omega) (by unfold intMax; omega) le_rfl
    (roomServed_of_le none (by rw [hsize]; unfold initBufferSize; omega))
  exact ⟨c, b, source, hnew, hb, happend, hwf', by rw [hread', hread]; rfl, hinv,
    hinv.writesDirectly.mpr (List.append_eq_nil_iff.mp hinv.queued).2, hroom⟩

/-- The direct write takes both bytes of the source. -/
theorem send_buffer_exactly_once_whole :
    ∃ c source effect source' n, source.readable = [97, 98] ∧
      tcpConnectionSendBuffer (fun _ => .ok 0) c source (.accepts 5) none =
        .ok (effect, source', n) ∧ ExactlyOnce c source effect.connection source' ∧
      ∃ s, [ResendEvent.send (.accepts 5) none].foldlM (ResendRun.step fun _ => .ok 0)
        ⟨c, source⟩ = .ok s ∧ s.bytes = ResendRun.bytes ⟨c, source⟩ := by
  obtain ⟨c, -, source, -, -, -, hwf, hread, hinv, hdirect, -⟩ := exists_twoByteSource
  have hwhole : SendsWhole c source.readable (.accepts 5) :=
    .inr (.inr ⟨hdirect, 5, rfl, by rw [hread]; decide⟩)
  obtain ⟨hcalls, hruns⟩ := send_buffer_exactly_once_iff (fun _ => .ok 0) hinv.wellFormed hwf
  obtain ⟨effect, source', n, hret, honce⟩ := (hcalls (.accepts 5) none).mpr hwhole
  exact ⟨c, source, effect, source', n, hread, hret, honce,
    hruns 0 _ rfl ⟨hwhole, fun _ _ => trivial⟩⟩

/-- The direct write takes one byte of two: the other is queued, and is still in
the source. -/
theorem send_buffer_duplicates :
    ∃ c b source effect source' n,
      tcpConnectionNew 0 5 0 ⟨true, true, true, true⟩ (some fun _ => 0) (some fun _ => 0) =
        some c ∧
      bufferNew true (some fun _ => 0) = some b ∧
      bufferAppend b (some [97, 98]) 2 none = .ok (source, true) ∧
      tcpConnectionSendBuffer (fun _ => .ok 0) c source (.accepts 1) none =
        .ok (effect, source', n) ∧
      effect.connection.stream.accepted = [97] ∧
      effect.connection.outputBuffer.readable = [98] ∧ source'.readable = [98] ∧
      ¬ ExactlyOnce c source effect.connection source' := by
  obtain ⟨c, b, source, hnew, hb, happend, hwf, hread, hinv, hdirect, hroom⟩ :=
    exists_twoByteSource
  obtain ⟨haccepted₀, hqueued₀⟩ := List.append_eq_nil_iff.mp hinv.queued
  have hfault : ¬ SendFaults c (.accepts 1) := by simp [SendFaults]
  have htaken : directlyTaken c source.readable (.accepts 1) = [97] := by
    rw [hread, directlyTaken, if_pos hdirect]; rfl
  have hrest : queuedBySend c source.readable (.accepts 1) = [98] := by
    rw [queuedBySend, if_neg hfault, htaken, hread]; rfl
  obtain ⟨effect, source', n, hret, -, -⟩ := sendBuffer_ok (fun _ => .ok 0)
    hinv rfl hfault hwf
    (roomServed_of_le none (by rw [htaken, hread, hroom]; decide))
  obtain ⟨-, -, haccepted, hqueued, hleft⟩ := sendBuffer_returns hinv.wellFormed hwf hret
  refine ⟨c, b, source, effect, source', n, hnew, hb, happend, hret, ?_, ?_, ?_, ?_⟩
  · rw [haccepted, haccepted₀, htaken]; rfl
  · rw [hqueued, hqueued₀, hrest]; rfl
  · rw [hleft, htaken, hread]; rfl
  · rw [exactlyOnce_iff haccepted hqueued hleft, sendsWhole_iff, hrest]
    simp

end OsProgramming.Reactor
