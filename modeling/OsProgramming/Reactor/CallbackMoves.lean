import OsProgramming.Reactor.Callbacks
import OsProgramming.Reactor.OutputPath
import Mathlib.Logic.Relation

/-! What a callback can do to a loop. All that happens in one is a sequence of moves
that neither remove a channel nor call `on_connection_closed`, except that a read
which fails or finds the end of the stream closes its connection, once. -/

namespace OsProgramming.Reactor

open Library

/-- The read reports an error or the end of the stream. -/
def ReadAnswer.Ends : ReadAnswer → Prop
  | .failed _ => True
  | .offered bytes => bytes = []

instance (answer : ReadAnswer) : Decidable answer.Ends :=
  match answer with
  | .failed _ => .isTrue trivial
  | .offered bytes => inferInstanceAs (Decidable (bytes = []))

/-- The fields that stay as `tcp_connection_new` has set them. -/
def TcpConnection.fixed (connection : TcpConnection) : LoopId × Callbacks × Channel :=
  (connection.loop, connection.callbacks, { connection.channel with events := 0 })

theorem OutputOnly.fixed {c c' : TcpConnection} (h : OutputOnly c c') : c'.fixed = c.fixed := by
  rw [h]
  rfl

/-! ### Callbacks of a connection -/

theorem bufferSocketRead_ends {b b' : Buffer} {socket : ReadAnswer} {answer : Alloc Byte} {size : ℤ}
    (h : bufferSocketRead b socket answer = .ok (b', size)) : 0 < size ↔ ¬ socket.Ends := by
  cases socket with
  | failed errno =>
    cases h
    simp [ReadAnswer.Ends]
  | offered bytes =>
    have hsize : size = (readvDelivers b (.offered bytes)).length := by
      obtain ⟨data, -, h⟩ := bind_eq_ok.mp h
      dsimp only at h
      split_ifs at h
      · cases h
        rfl
      · obtain ⟨_, -, h⟩ := bind_eq_ok.mp h
        cases h
        rfl
    rw [hsize, readvDelivers, ReadAnswer.Ends, Nat.cast_pos, List.length_pos_iff, ne_eq,
      List.take_eq_nil_iff]
    unfold initBufferSize
    simp

theorem handleConnectionClosed_callback (c : TcpConnection) :
    (handleConnectionClosed c).callback = some .onConnectionClosed ↔
      c.callbacks.onConnectionClosed = true := by
  simp [handleConnectionClosed]

variable {cast : ChannelData → Result LoopId} {c : TcpConnection} {effect : Effect}

theorem handleRead_cases {socket : ReadAnswer} {answer : Alloc Byte}
    (h : handleRead c socket answer = .ok effect) :
    effect.connection.fixed = c.fixed ∧
      if socket.Ends then effect = handleConnectionClosed effect.connection
      else effect.posts = [] ∧ effect.callback ≠ some .onConnectionClosed := by
  obtain ⟨⟨inputBuffer, size⟩, hread, h⟩ := bind_eq_ok.mp h
  have hends := bufferSocketRead_ends hread
  dsimp only at h
  by_cases hend : socket.Ends
  · rw [if_neg (mt hends.mp (not_not.mpr hend))] at h
    cases h
    rw [if_pos hend]
    exact ⟨rfl, rfl⟩
  · rw [if_pos (hends.mpr hend)] at h
    cases h
    rw [if_neg hend]
    refine ⟨rfl, rfl, ?_⟩
    dsimp only
    split_ifs <;> nofun

/-- Switching the interest in writing changes the events and posts an update. -/
theorem channelEventWrite_fixed {channel channel' : Channel} {post : Post}
    (h : channelEventEnableWrite cast channel = .ok (channel', post) ∨
      channelEventDisableWrite cast channel = .ok (channel', post)) :
    channel' = { channel with events := channel'.events } ∧ post.op = .update := by
  rcases h with h | h
  all_goals
    obtain ⟨loop, -, h⟩ := bind_eq_ok.mp h
    cases h
    exact ⟨rfl, rfl⟩

theorem handleWrite_cases {socket : WriteAnswer} (h : handleWrite cast c socket = .ok effect) :
    OutputOnly c effect.connection ∧ (∀ post ∈ effect.posts, post.op = .update) ∧
      effect.callback ≠ some .onConnectionClosed := by
  obtain ⟨bytes, -, h⟩ := bind_eq_ok.mp h
  have hcallback : (if c.callbacks.onWriteCompleted = true then some AppCallback.onWriteCompleted
      else none) ≠ some .onConnectionClosed := by
    split_ifs <;> nofun
  dsimp only at h
  generalize (if c.callbacks.onWriteCompleted = true then some AppCallback.onWriteCompleted
    else none) = callback at h hcallback
  split_ifs at h with hpos hdone
  · obtain ⟨⟨channel, post⟩, hdisable, h⟩ := bind_eq_ok.mp h
    cases h
    obtain ⟨hchannel, hop⟩ := channelEventWrite_fixed (.inr hdisable)
    exact ⟨.of_channel hchannel rfl, by simpa using hop, hcallback⟩
  · cases h
    exact ⟨rfl, by simp, hcallback⟩
  · cases h
    exact ⟨rfl, by simp, nofun⟩

theorem directWrite_outputOnly {c' : TcpConnection} {data : List Byte} {size sizeWritten : ℤ}
    {socket : WriteAnswer} {fault : Bool}
    (h : directWrite c data size socket = .ok (c', sizeWritten, fault)) : OutputOnly c c' := by
  unfold directWrite at h
  split_ifs at h
  · obtain ⟨bytes, -, h⟩ := bind_eq_ok.mp h
    cases socket with
    | failed errno => cases h; rfl
    | accepts room => cases h; rfl
  · cases h
    rfl

theorem bufferRest_outputOnly {data : List Byte} {size sizeWritten : ℤ} {fault : Bool}
    {answer : Alloc Byte} (h : bufferRest cast c data size sizeWritten fault answer = .ok effect) :
    OutputOnly c effect.connection := by
  unfold bufferRest at h
  dsimp only at h
  split at h
  · obtain ⟨⟨outputBuffer, _⟩, -, h⟩ := bind_eq_ok.mp h
    split at h
    · cases h
      rfl
    · obtain ⟨⟨channel, post⟩, henable, h⟩ := bind_eq_ok.mp h
      cases h
      exact .of_channel (channelEventWrite_fixed (.inl henable)).1 rfl
  · cases h
    rfl

theorem sendData_outputOnly {data : List Byte} {size result : ℤ} {socket : WriteAnswer}
    {answer : Alloc Byte}
    (h : tcpConnectionSendData cast c data size socket answer = .ok (effect, result)) :
    OutputOnly c effect.connection := by
  obtain ⟨⟨c', sizeWritten, fault⟩, hdirect, h⟩ := bind_eq_ok.mp h
  obtain ⟨effect', hrest, h⟩ := bind_eq_ok.mp h
  cases h
  exact (directWrite_outputOnly hdirect).trans (bufferRest_outputOnly hrest)

theorem bufferRest_posts {data : List Byte} {size sizeWritten : ℤ} {fault : Bool}
    {answer : Alloc Byte} (h : bufferRest cast c data size sizeWritten fault answer = .ok effect) :
    ∀ post ∈ effect.posts, post.op = .update := by
  unfold bufferRest at h
  dsimp only at h
  split at h
  · obtain ⟨⟨outputBuffer, _⟩, -, h⟩ := bind_eq_ok.mp h
    split at h
    · cases h
      nofun
    · obtain ⟨⟨channel, post⟩, henable, h⟩ := bind_eq_ok.mp h
      cases h
      simpa using (channelEventWrite_fixed (.inl henable)).2
  · cases h
    nofun

theorem sendData_posts {data : List Byte} {size result : ℤ} {socket : WriteAnswer}
    {answer : Alloc Byte}
    (h : tcpConnectionSendData cast c data size socket answer = .ok (effect, result)) :
    ∀ post ∈ effect.posts, post.op = .update := by
  obtain ⟨⟨c', sizeWritten, fault⟩, -, h⟩ := bind_eq_ok.mp h
  obtain ⟨effect', hrest, h⟩ := bind_eq_ok.mp h
  cases h
  exact bufferRest_posts hrest

namespace LoopState

variable {δ : Type} {S : Setting δ} {s s' s'' : LoopState δ}

/-! ### Moves -/

variable (S) in
/-- What happens in a callback that does not close its connection. -/
inductive Move : LoopState δ → LoopState δ → Prop
  | connection {s : LoopState δ} {id : ConnectionId} {connection : TcpConnection}
      (h : connection.fixed = (s.connections id).fixed) : Move s (s.setConnection id connection)
  | accept (s : LoopState δ) (fd : ℤ) : Move s { s with isOpen := Function.update s.isOpen fd true }
  | close (s : LoopState δ) (fd : ℤ) : Move s (s.closeDescriptor S fd)
  | add {s s' : LoopState δ} {channel : ChannelId} {answer : Alloc (Option ChannelId)}
      (hnew : channel ∉ s.added) (hserved : s.ServedBy S.self channel)
      (h : s.handle S ⟨.add, channel⟩ answer = .ok s') :
      Move s { s' with added := channel :: s'.added }
  | update {s s' : LoopState δ} {channel : ChannelId}
      (h : s.handle S ⟨.update, channel⟩ none = .ok s') : Move s s'

variable (S) in
def Moves : LoopState δ → LoopState δ → Prop := Relation.ReflTransGen (Move S)

variable (S) in
/-- A connection is removed, and its callback is invoked if it has one. -/
def Removes (id : ConnectionId) (s s' : LoopState δ) : Prop :=
  ∃ removed, s.handle S ⟨.delete, .connection id⟩ none = .ok removed ∧
    s' = if (s.connections id).callbacks.onConnectionClosed
      then { removed with closed := removed.closed ++ [id] } else removed

variable (S) in
/-- A callback that closes its connection: the removal, with moves around it. -/
def Closes (id : ConnectionId) (s s' : LoopState δ) : Prop :=
  ∃ s₁ s₂, Moves S s s₁ ∧ Removes S id s₁ s₂ ∧ Moves S s₂ s'

theorem act_moves {a : Act} (h : s.act S a = .ok s') : Moves S s s' := by
  cases a with
  | accept fd =>
    cases h
    exact .single (.accept s fd)
  | close fd =>
    cases h
    exact .single (.close s fd)
  | add channel answer =>
    rw [act] at h
    split_ifs at h with hnew
    · obtain ⟨handled, hadd, h⟩ := bind_eq_ok.mp h
      cases h
      exact .single (.add hnew.1 hnew.2 hadd)
    · cases h
      exact .refl
  | update channel => exact .single (.update h)
  | send id data size socket answer =>
    obtain ⟨⟨effect, result⟩, hsend, h⟩ := bind_eq_ok.mp h
    cases h
    exact .single (.connection (sendData_outputOnly hsend).fixed)
  | consume id inputBuffer =>
    cases h
    exact .single (.connection rfl)

theorem acts_moves {acts : List Act} (h : acts.foldlM (act S) s = .ok s') : Moves S s s' := by
  induction acts generalizing s with
  | nil => cases h; exact .refl
  | cons a acts ih =>
    obtain ⟨s₁, hact, hrest⟩ := bind_eq_ok.mp h
    exact (act_moves hact).trans (ih hrest)

theorem posts_moves {id : ConnectionId} {posts : List Post} (hposts : ∀ p ∈ posts, p.op = .update)
    (h : posts.foldlM (post S id) s = .ok s') : Moves S s s' := by
  induction posts generalizing s with
  | nil => cases h; exact .refl
  | cons p posts ih =>
    obtain ⟨s₁, hpost, hrest⟩ := bind_eq_ok.mp h
    have hrest := ih (fun q hq => hposts q (List.mem_cons_of_mem p hq)) hrest
    rw [post, hposts p List.mem_cons_self] at hpost
    split_ifs at hpost
    · exact .head (.update hpost) hrest
    · cases hpost
      exact hrest

/-- The rest of a callback that posts no removal. -/
theorem finish_moves {id : ConnectionId} {effect : Effect} {script : CallScript}
    (hfixed : effect.connection.fixed = (s.connections id).fixed)
    (hposts : ∀ p ∈ effect.posts, p.op = .update)
    (hcallback : effect.callback ≠ some .onConnectionClosed)
    (h : s.finish S id effect script = .ok s') : Moves S s s' := by
  obtain ⟨s₁, hqueued, h⟩ := bind_eq_ok.mp h
  obtain ⟨s₂, hhandled, h⟩ := bind_eq_ok.mp h
  rw [if_neg hcallback] at h
  exact ((acts_moves hqueued).head (.connection hfixed)).trans
    ((posts_moves hposts hhandled).trans (acts_moves h))

theorem handle_loop {op : PendingOp ChannelId} {answer : Alloc (Option ChannelId)}
    (h : s.handle S op answer = .ok s') :
    s' = { s with loop := s'.loop } ∧ ∃ result, handlePending (S.dispatcher s.isOpen) s.channels
      s.loop op answer = .ok (s'.loop, result) := by
  obtain ⟨⟨loop, result⟩, hop, h⟩ := bind_eq_ok.mp h
  cases h
  exact ⟨rfl, result, hop⟩

theorem handle_log {op : PendingOp ChannelId} {answer : Alloc (Option ChannelId)}
    (h : s.handle S op answer = .ok s') : s'.added = s.added ∧ s'.closed = s.closed := by
  rw [(handle_loop h).1]
  exact ⟨rfl, rfl⟩

/-! ### What never changes -/

structure SameFixed (s s' : LoopState δ) : Prop where
  connections : ∀ id, (s'.connections id).fixed = (s.connections id).fixed
  wakeup : s'.wakeup = s.wakeup
  acceptor : s'.acceptor = s.acceptor

namespace SameFixed

theorem refl (s : LoopState δ) : SameFixed s s := ⟨fun _ => rfl, rfl, rfl⟩

theorem trans (h : SameFixed s s') (h' : SameFixed s' s'') : SameFixed s s'' :=
  ⟨fun id => (h'.connections id).trans (h.connections id), h'.wakeup.trans h.wakeup,
    h'.acceptor.trans h.acceptor⟩

theorem loop (h : SameFixed s s') (id : ConnectionId) :
    (s'.connections id).loop = (s.connections id).loop :=
  congrArg Prod.fst (h.connections id)

theorem callbacks (h : SameFixed s s') (id : ConnectionId) :
    (s'.connections id).callbacks = (s.connections id).callbacks :=
  congrArg (fun p => p.2.1) (h.connections id)

theorem channel_fd (h : SameFixed s s') (channel : ChannelId) :
    (s'.channels channel).fd = (s.channels channel).fd := by
  cases channel with
  | wakeup => exact congrArg Channel.fd h.wakeup
  | acceptor => exact congrArg Channel.fd h.acceptor
  | connection id => exact congrArg (fun p => p.2.2.fd) (h.connections id)

theorem servedBy (h : SameFixed s s') (loop : LoopId) (channel : ChannelId) :
    s'.ServedBy loop channel ↔ s.ServedBy loop channel := by
  cases channel with
  | connection id => exact Eq.congr_left (h.loop id)
  | wakeup => exact Iff.rfl
  | acceptor => exact Iff.rfl

end SameFixed

theorem handle_fixed {op : PendingOp ChannelId} {answer : Alloc (Option ChannelId)}
    (h : s.handle S op answer = .ok s') : SameFixed s s' := by
  rw [(handle_loop h).1]
  exact ⟨fun _ => rfl, rfl, rfl⟩

theorem Move.fixed (h : Move S s s') : SameFixed s s' := by
  cases h with
  | @connection id connection hfixed =>
    refine ⟨?_, rfl, rfl⟩
    intro id'
    simp only [setConnection, Function.update_apply]
    split_ifs with heq
    · rw [heq, hfixed]
    · rfl
  | accept fd => exact ⟨fun _ => rfl, rfl, rfl⟩
  | close fd => exact ⟨fun _ => rfl, rfl, rfl⟩
  | add hnew hserved hadd =>
    have hsame := handle_fixed hadd
    exact ⟨hsame.connections, hsame.wakeup, hsame.acceptor⟩
  | update hupdate => exact handle_fixed hupdate

/-- What every move keeps a sequence of moves keeps. -/
theorem Moves.keeps {Q : LoopState δ → Prop} (hstep : ∀ s s', Q s → Move S s s' → Q s')
    (h : Moves S s s') (hs : Q s) : Q s' := by
  induction h with
  | refl => exact hs
  | tail _ hmove ih => exact hstep _ _ ih hmove

theorem Moves.fixed (h : Moves S s s') : SameFixed s s' :=
  h.keeps (fun _ _ hs hmove => hs.trans hmove.fixed) (.refl s)

theorem Removes.fixed {id : ConnectionId} (h : Removes S id s s') : SameFixed s s' := by
  obtain ⟨removed, hdelete, rfl⟩ := h
  have hsame := handle_fixed hdelete
  split_ifs
  · exact ⟨hsame.connections, hsame.wakeup, hsame.acceptor⟩
  · exact hsame

/-- The rest of `handle_read` for a connection that is closed. -/
theorem finish_closes {id : ConnectionId} {effect : Effect} {script : CallScript}
    (hfixed : effect.connection.fixed = (s.connections id).fixed)
    (hclosed : effect = handleConnectionClosed effect.connection)
    (hself : (s.connections id).loop = S.self) (h : s.finish S id effect script = .ok s') :
    Closes S id s s' := by
  obtain ⟨s₁, hqueued, h⟩ := bind_eq_ok.mp h
  obtain ⟨s₂, hhandled, h⟩ := bind_eq_ok.mp h
  have hmoves : Moves S s s₁ := (acts_moves hqueued).head (.connection hfixed)
  have hloop : effect.connection.loop = S.self := (congrArg Prod.fst hfixed).trans hself
  have hcallbacks : (s₁.connections id).callbacks = effect.connection.callbacks :=
    (hmoves.fixed.callbacks id).trans (congrArg (fun p => p.2.1) hfixed).symm
  rw [hclosed] at hhandled h
  simp only [handleConnectionClosed, List.foldlM_cons, post, if_pos hloop, List.foldlM_nil,
    pure_ok] at hhandled
  obtain ⟨removed, hdelete, hhandled⟩ := bind_eq_ok.mp hhandled
  cases hhandled
  refine ⟨s₁, _, hmoves, ⟨s₂, hdelete, ?_⟩, acts_moves h⟩
  rw [hcallbacks]
  exact if_congr (handleConnectionClosed_callback effect.connection) rfl rfl

end LoopState

end OsProgramming.Reactor
