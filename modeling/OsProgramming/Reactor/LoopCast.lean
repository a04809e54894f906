import OsProgramming.Reactor.SendBuffer

/-! The cast of `channel->data` to the loop. The data of a connection's channel is
the connection; that its first member is its loop, which the comments beside the
calls rely on, does not help, since the member is a pointer to the loop. The cast is
made as soon as a send has something to queue, and before that never. -/

namespace OsProgramming.Reactor

open Library

/-- The cast gives a loop for the data of a wake-up channel only. -/
theorem castEventLoop_eq_ok {data : ChannelData} {loop : LoopId} :
    castEventLoop data = .ok loop ↔ data = .eventLoop loop := by
  cases data <;> simp [castEventLoop]

/-- Queueing the rest of a send switches write interest on. -/
theorem bufferRest_badCast {c : TcpConnection} {id : ConnectionId} {data : List Byte} {n k : ℕ}
    {answer : Alloc Byte} (hwf : c.outputBuffer.WellFormed)
    (hdata : c.channel.data = .tcpConnection id)
    (hoff : channelEventIsWriteable (some c.channel) = false) (hk : k < n) (hn : n ≤ data.length)
    (hmax : (n : ℤ) ≤ intMax) (hserved : RoomServed c.outputBuffer ((n : ℤ) - k) answer) :
    bufferRest castEventLoop c data n k false answer = .error .badCast := by
  have hleft : (n : ℤ) - k = ((n - k : ℕ) : ℤ) := by omega
  rw [hleft] at hserved
  obtain ⟨b', happend, -, -⟩ := bufferAppend_ok (data.drop k) hwf
    (by omega : 0 < n - k) (by omega) (by rw [List.length_drop]; omega) hserved
  have hpos : (0 : ℤ) < ((n - k : ℕ) : ℤ) := by omega
  simp only [bufferRest, hleft, true_and, hpos, ↓reduceIte, Int.toNat_natCast, happend, ok_bind,
    hoff, Bool.false_eq_true, channelEventEnableWrite, hdata, castEventLoop, error_bind]

/-- Nothing has ever been queued on the connection that was `c₀` at its start. -/
structure OutputRun.Idle (c₀ : TcpConnection) (s : OutputRun) : Prop where
  wellFormed : s.connection.outputBuffer.WellFormed
  direct : WritesDirectly s.connection
  only : OutputOnly c₀ s.connection
  posts : s.posts = []

/-- The sends of an event have nothing to queue. -/
def OutputEvent.Whole (s : OutputRun) : OutputEvent → Prop
  | .send call => SendsWhole s.connection call.bytes call.socket
  | .writable _ _ => True

/-- A writable event finds nothing to write, and invokes nothing. -/
theorem OutputRun.Idle.writable {c₀ : TcpConnection} {s : OutputRun} (h : s.Idle c₀)
    (socket : WriteAnswer) (calls : List SendCall) :
    s.step castEventLoop (.writable socket calls) = .ok s := by
  have hnil := h.wellFormed.readableSize_eq_zero.mp h.direct.2
  have htaken : socket.taken s.connection.outputBuffer.readable = [] := by
    rw [hnil]; cases socket <;> simp [WriteAnswer.taken]
  simp only [OutputRun.step, handleWrite_eq castEventLoop socket h.wellFormed, htaken, ↓reduceIte,
    ok_bind, List.append_nil]

theorem OutputRun.Idle.step_ok {c₀ : TcpConnection} (s : OutputRun) (event : OutputEvent)
    (h : s.Idle c₀) (hadm : event.Admitted castEventLoop s) (hwhole : event.Whole s) :
    ∃ s', s.step castEventLoop event = .ok s' ∧ s'.Idle c₀ := by
  cases event with
  | send call =>
    obtain ⟨data, size, socket, answer⟩ := call
    obtain ⟨h0, hlen, -, -⟩ := hadm
    obtain ⟨n, rfl⟩ : ∃ n : ℕ, size = n := ⟨size.toNat, by simp only at h0; omega⟩
    have hn : n ≤ data.length := by simp only at hlen; omega
    have hsend := sendData_whole castEventLoop (c := s.connection) answer hn hwhole
    simp only [OutputRun.step, OutputRun.send, hsend, ok_bind, List.append_nil]
    exact ⟨_, rfl, h.wellFormed, h.direct, h.only.trans rfl, h.posts⟩
  | writable socket calls => exact ⟨s, h.writable socket calls, h⟩

/-- A send that has something to queue makes the cast. -/
theorem OutputRun.Idle.step_badCast {c₀ : TcpConnection} {id : ConnectionId}
    (hdata : c₀.channel.data = .tcpConnection id) (s : OutputRun) (event : OutputEvent)
    (h : s.Idle c₀) (hadm : event.Admitted castEventLoop s) (hrest : ¬ event.Whole s) :
    s.step castEventLoop event = .error .badCast := by
  cases event with
  | send call =>
    obtain ⟨data, size, socket, answer⟩ := call
    obtain ⟨h0, hlen, hmax, hserved⟩ := hadm
    obtain ⟨n, rfl⟩ : ∃ n : ℕ, size = n := ⟨size.toNat, by simp only at h0; omega⟩
    have hn : n ≤ data.length := by simp only at hlen; omega
    have hqueued : queuedBySend s.connection (data.take n) socket ≠ [] :=
      fun hnil => hrest (sendsWhole_iff.mpr hnil)
    rw [queuedBySend] at hqueued
    split_ifs at hqueued with hfault
    · exact absurd rfl hqueued
    set taken := directlyTaken s.connection (data.take n) socket with htaken
    have hlt : taken.length < n := by
      rw [ne_eq, List.drop_eq_nil_iff, List.length_take, Nat.min_eq_left hn] at hqueued
      omega
    have hbad := bufferRest_badCast
      (c := { s.connection with stream := { s.connection.stream with
        accepted := s.connection.stream.accepted ++ taken } })
      h.wellFormed (h.only.channel_data.trans hdata) h.direct.1 hlt hn hmax (hserved hfault)
    simp only [OutputRun.step, OutputRun.send, tcpConnectionSendData,
      directWrite_eq s.connection data socket hn, ← htaken, decide_eq_false hfault, ok_bind, hbad,
      error_bind]
  | writable socket calls => exact absurd trivial hrest

/-- On the channel of a connection the cast never leaves its defined behaviour, and
every update lands in the queue of the connection's loop, if and only if no send of
the run has anything to queue; the first that has ends the run. -/
theorem cast_reaches_loop_iff {id : ConnectionId} {fd : ℤ} {loop : LoopId} {callbacks : Callbacks}
    {input output : ℕ → Byte} {c₀ : TcpConnection}
    (hnew : tcpConnectionNew id fd loop callbacks (some input) (some output) = some c₀)
    (events : List OutputEvent)
    (hadm : Admissible (OutputRun.step castEventLoop)
      (fun s event => event.Admitted castEventLoop s) ⟨c₀, [], []⟩ events) :
    ((∃ s, events.foldlM (OutputRun.step castEventLoop) ⟨c₀, [], []⟩ = .ok s ∧
        ∀ post ∈ s.posts, post.loop = loop) ↔
      Admissible (OutputRun.step castEventLoop) (fun s event => event.Whole s)
        ⟨c₀, [], []⟩ events) ∧
    (¬ Admissible (OutputRun.step castEventLoop) (fun s event => event.Whole s)
        ⟨c₀, [], []⟩ events →
      events.foldlM (OutputRun.step castEventLoop) ⟨c₀, [], []⟩ = .error .badCast) ∧
    ∀ data own, castEventLoop data = .ok own ↔ data = .eventLoop own := by
  obtain ⟨hout, -, -, -, -, -, -, -, hchannel⟩ := outputInv_new hnew
  have hdata : c₀.channel.data = .tcpConnection id := by rw [hchannel]; rfl
  have hidle : OutputRun.Idle c₀ ⟨c₀, [], []⟩ := ⟨hout.wellFormed,
    hout.writesDirectly.mpr (List.append_eq_nil_iff.mp hout.queued).2, OutputOnly.refl c₀, rfl⟩
  refine ⟨?_, ?_, fun _ _ => castEventLoop_eq_ok⟩
  all_goals
    rcases foldlM_ok_or_error OutputRun.Idle.step_ok (OutputRun.Idle.step_badCast hdata) hidle hadm
      with ⟨hwhole, s, hs, hidle'⟩ | ⟨hrest, hbad⟩
  · exact ⟨fun _ => hwhole, fun _ => ⟨s, hs, by rw [hidle'.posts]; simp⟩⟩
  · refine ⟨?_, fun hwhole => absurd hwhole hrest⟩
    rintro ⟨s, hs, -⟩
    rw [hbad] at hs
    cases hs
  · exact fun hrest => absurd hwhole hrest
  · exact fun _ => hbad

/-- A send of two bytes on a fresh connection to loop 0, and its bounds. -/
theorem exists_twoByteSend (socket : WriteAnswer) :
    ∃ c₀, tcpConnectionNew 0 5 0 ⟨true, true, true, true⟩ (some fun _ => 0) (some fun _ => 0) =
        some c₀ ∧ WritesDirectly c₀ ∧
      OutputEvent.Admitted castEventLoop ⟨c₀, [], []⟩ (.send ⟨[1, 2], 2, socket, none⟩) := by
  obtain ⟨c₀, hnew⟩ : ∃ c₀, tcpConnectionNew 0 5 0 ⟨true, true, true, true⟩ (some fun _ => 0)
      (some fun _ => 0) = some c₀ := ⟨_, rfl⟩
  obtain ⟨hinv, -, -, -, hroom, -⟩ := outputInv_new hnew
  refine ⟨c₀, hnew, hinv.writesDirectly.mpr (List.append_eq_nil_iff.mp hinv.queued).2,
    (by decide : (0 : ℤ) ≤ 2), le_rfl, (by decide : (2 : ℤ) ≤ intMax),
    fun _ => roomServed_of_le none ?_⟩
  rw [hroom]
  show (2 : ℤ) - _ ≤ _
  unfold initBufferSize
  omega

/-- The direct write takes both bytes. -/
theorem cast_reaches_loop_whole :
    ∃ c₀ s, tcpConnectionNew 0 5 0 ⟨true, true, true, true⟩ (some fun _ => 0) (some fun _ => 0) =
        some c₀ ∧
      [.send ⟨[1, 2], 2, .accepts 2, none⟩].foldlM (OutputRun.step castEventLoop)
        ⟨c₀, [], []⟩ = .ok s ∧ ∀ post ∈ s.posts, post.loop = 0 := by
  obtain ⟨c₀, hnew, hdirect, hadm⟩ := exists_twoByteSend (.accepts 2)
  obtain ⟨hiff, -⟩ := cast_reaches_loop_iff hnew [.send ⟨[1, 2], 2, .accepts 2, none⟩]
    ⟨hadm, fun _ _ => trivial⟩
  obtain ⟨s, hs, hposts⟩ := hiff.mpr
    ⟨.inr (.inr ⟨hdirect, 2, rfl, by decide⟩), fun _ _ => trivial⟩
  exact ⟨c₀, s, hnew, hs, hposts⟩

/-- The direct write takes one byte of two. -/
theorem cast_misses_loop :
    ∃ c₀, tcpConnectionNew 0 5 0 ⟨true, true, true, true⟩ (some fun _ => 0) (some fun _ => 0) =
        some c₀ ∧
      [.send ⟨[1, 2], 2, .accepts 1, none⟩].foldlM (OutputRun.step castEventLoop)
        ⟨c₀, [], []⟩ = .error .badCast := by
  obtain ⟨c₀, hnew, hdirect, hadm⟩ := exists_twoByteSend (.accepts 1)
  obtain ⟨hout, -, -, -, -, -, -, -, hchannel⟩ := outputInv_new hnew
  have hrest : ¬ SendsWhole c₀ [1, 2] (.accepts 1) := by
    rw [sendsWhole_iff, queuedBySend, if_neg (by simp [SendFaults]), directlyTaken, if_pos hdirect]
    decide
  have hdata : c₀.channel.data = .tcpConnection 0 := by rw [hchannel]; rfl
  have hbad := OutputRun.Idle.step_badCast hdata
    ⟨c₀, [], []⟩ _ ⟨hout.wellFormed, hdirect, OutputOnly.refl c₀, rfl⟩ hadm hrest
  exact ⟨c₀, hnew, by rw [List.foldlM_cons, hbad, error_bind]⟩

end OsProgramming.Reactor
