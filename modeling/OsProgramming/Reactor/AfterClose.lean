import OsProgramming.Reactor.LifecycleSteps

/-! Nothing happens to a connection after it is closed. The steps of the process are moves
of its view, for any dispatcher: what a backend reports is looked up in the channel map
before anything is called. -/

namespace OsProgramming.Reactor

open Library

def LoopThread.agenda {δ π : Type} (thread : LoopThread δ π) : Agenda :=
  ⟨thread.work, thread.handler⟩

namespace Process

variable {δ π ρ : Type} {S : Server δ π ρ} {s s' : Process δ π} {t : LoopId} {id : ConnectionId}
  {stage : ConnectionId → Stage} {work : List Instr} {a : Answers ρ}

def view (s : Process δ π) : View where
  agenda t := (s.threads t).agenda
  pending t := (s.threads t).pending
  entry t := (s.threads t).loop.channelMap.entry
  loop id := (s.connections id).loop
  fd id := (s.connections id).channel.fd
  created := s.created
  log := s.log

/-- The maps are as long as they say, and the channels of the connections are as
`tcp_connection_new` has set them. -/
structure Sound (s : Process δ π) : Prop where
  maps : ∀ t, (s.threads t).loop.channelMap.WellFormed
  channels : ∀ id, id < s.created → (s.connections id).channel.onChannelReadable = some .handleRead ∧
    (s.connections id).channel.onChannelWriteable = some .handleWrite ∧
    (s.connections id).channel.data = .tcpConnection id

/-! ### Views -/

theorem view_setThread (s : Process δ π) (t : LoopId) (thread : LoopThread δ π) :
    (s.setThread t thread).view = ((s.view.setPending t thread.pending).setEntry t
      thread.loop.channelMap.entry).goto t thread.work thread.handler := by
  have hproj : ∀ {α : Type} (f : LoopThread δ π → α),
      (fun t' => f ((s.setThread t thread).threads t')) =
        Function.update (fun t' => f (s.threads t')) t (f thread) := by
    intro α f
    funext t'
    simp only [setThread, Function.update_apply]
    split_ifs <;> rfl
  simp only [view, View.setPending, View.setEntry, View.goto, View.mk.injEq]
  exact ⟨hproj LoopThread.agenda, hproj LoopThread.pending,
    hproj fun thread => thread.loop.channelMap.entry, rfl, rfl, rfl, rfl⟩

/-- The queue and the channel map of the thread stay. -/
theorem view_setThread_goto {thread : LoopThread δ π}
    (hpending : thread.pending = (s.threads t).pending)
    (hmap : thread.loop.channelMap = (s.threads t).loop.channelMap) :
    (s.setThread t thread).view = s.view.goto t thread.work thread.handler := by
  rw [view_setThread, hpending, hmap]
  exact congrArg (fun v : View => v.goto t thread.work thread.handler)
    ((congrArg (fun v : View => v.setEntry t _) (s.view.setPending_self t)).trans
      (s.view.setEntry_self t))

theorem view_goto (s : Process δ π) (t : LoopId) (work : List Instr) (handler : Option Handler) :
    (s.goto t work handler).view = s.view.goto t work handler :=
  view_setThread_goto rfl rfl

/-- What the thread does next stays. -/
theorem view_setThread_queue {thread : LoopThread δ π}
    (hagenda : thread.agenda = (s.threads t).agenda) : (s.setThread t thread).view =
      (s.view.setPending t thread.pending).setEntry t thread.loop.channelMap.entry := by
  have hwork : thread.work = (s.threads t).work := congrArg Agenda.work hagenda
  have hhandler : thread.handler = (s.threads t).handler := congrArg Agenda.handler hagenda
  rw [view_setThread, hwork, hhandler]
  exact View.goto_self _ t

theorem view_setThread_eq {thread : LoopThread δ π} (hagenda : thread.agenda = (s.threads t).agenda)
    (hpending : thread.pending = (s.threads t).pending)
    (hmap : thread.loop.channelMap = (s.threads t).loop.channelMap) :
    (s.setThread t thread).view = s.view := by
  have hwork : thread.work = (s.threads t).work := congrArg Agenda.work hagenda
  have hhandler : thread.handler = (s.threads t).handler := congrArg Agenda.handler hagenda
  rw [view_setThread_goto hpending hmap, hwork, hhandler]
  exact s.view.goto_self t

theorem view_setConnection {connection : TcpConnection}
    (hfixed : connection.fixed = (s.connections id).fixed) :
    (s.setConnection id connection).view = s.view := by
  have hloop : connection.loop = (s.connections id).loop := congrArg Prod.fst hfixed
  have hfd : connection.channel.fd = (s.connections id).channel.fd :=
    congrArg (fun p => p.2.2.fd) hfixed
  simp only [view, View.mk.injEq]
  refine ⟨rfl, rfl, rfl, ?_, ?_, rfl, rfl⟩
  all_goals
    funext id'
    simp only [setConnection, Function.update_apply]
    split_ifs with heq
    · subst heq
      assumption
    · rfl

theorem Sound.setThread (h : s.Sound) {thread : LoopThread δ π}
    (hmap : thread.loop.channelMap.WellFormed) : (s.setThread t thread).Sound := by
  refine ⟨?_, h.channels⟩
  intro t'
  simp only [Process.setThread, Function.update_apply]
  split_ifs
  · exact hmap
  · exact h.maps t'

theorem Sound.goto (h : s.Sound) {handler : Option Handler} : (s.goto t work handler).Sound :=
  h.setThread (h.maps t)

theorem Sound.setConnection (h : s.Sound) {connection : TcpConnection}
    (hfixed : connection.fixed = (s.connections id).fixed) :
    (s.setConnection id connection).Sound := by
  refine ⟨h.maps, ?_⟩
  intro id' hlt
  simp only [Process.setConnection, Function.update_apply]
  split_ifs with heq
  · subst heq
    have hchannel := congrArg (fun p => p.2.2) hfixed
    obtain ⟨hread, hwrite, hdata⟩ := h.channels id' hlt
    exact ⟨(congrArg Channel.onChannelReadable hchannel).trans hread,
      (congrArg Channel.onChannelWriteable hchannel).trans hwrite,
      (congrArg Channel.data hchannel).trans hdata⟩
  · exact h.channels id' hlt

/-! ### The queue -/

/-- Beyond the map nothing is registered. -/
theorem entry_length {loop : EventLoop ChannelId δ} (hmap : loop.channelMap.WellFormed) :
    loop.channelMap.entry loop.channelMap.length = none := by
  by_contra hne
  obtain ⟨c, hc⟩ := Option.ne_none_iff_exists'.mp hne
  exact (hmap.lt_of_entry hc).2.false

theorem handleOp_handles (h : s.Sound) {loop : EventLoop ChannelId δ} {op : PendingOp ChannelId}
    {answer : Alloc (Option ChannelId)}
    (hret : s.handleOp S t (s.threads t).loop op answer = .ok loop) :
    loop.channelMap.WellFormed ∧ s.view.Handles op (s.view.entry t) loop.channelMap.entry := by
  have hmap := h.maps t
  have hfor : s.view.IsFor (s.channels S t op.channel).fd op.channel := by
    intro id heq
    rw [heq]
    rfl
  have hunchanged : (s.threads t).loop.channelMap.entry (s.channels S t op.channel).fd = none →
      op.type = .delete → s.view.Handles op (s.view.entry t) (s.threads t).loop.channelMap.entry := by
    intro hnone hop
    rw [View.Handles, hop]
    exact ⟨_, hfor, (Function.update_eq_iff.mpr ⟨hnone.symm, fun _ _ => rfl⟩).symm⟩
  rw [handleOp] at hret
  split_ifs at hret with hbehind
  · cases hret
    refine ⟨hmap, ?_⟩
    have hnone : (s.threads t).loop.channelMap.entry (s.channels S t op.channel).fd = none := by
      rw [hbehind.2.2]
      exact entry_length hmap
    cases hop : op.type with
    | add => exact absurd hop hbehind.1
    | delete => exact hunchanged hnone hop
    | update =>
      rw [View.Handles, hop]
      rfl
  · obtain ⟨⟨loop', result⟩, hop, hret⟩ := bind_eq_ok.mp hret
    cases hret
    rw [handlePending] at hop
    cases htype : op.type with
    | add =>
      rw [htype] at hop
      rw [View.Handles, htype]
      rcases handlePendingAdd_cases hmap hop with ⟨rfl, -⟩ |
        ⟨map', data', r, h0, -, hlt, hext, -, rfl⟩
      · exact ⟨hmap, .inl rfl⟩
      · exact ⟨hext.wellFormed.set _ _, .inr ⟨_, h0, hfor, hext.entry_set_eq h0 hlt _⟩⟩
    | delete =>
      rw [htype] at hop
      rcases handlePendingRemove_cases hmap hop with ⟨rfl, hnone⟩ | ⟨c, data', hentry, -, rfl⟩
      · exact ⟨hmap, hunchanged hnone htype⟩
      · obtain ⟨h0, hlt⟩ := hmap.lt_of_entry hentry
        refine ⟨hmap.set _ _, ?_⟩
        rw [View.Handles, htype]
        exact ⟨_, hfor, hmap.entry_set_eq h0 hlt none⟩
    | update =>
      rw [htype] at hop
      rw [View.Handles, htype]
      rcases handlePendingUpdate_cases hmap hop with rfl | ⟨c, data', -, -, rfl⟩
      · exact ⟨hmap, rfl⟩
      · exact ⟨hmap, rfl⟩

/-! ### The steps are moves -/

theorem view_setPending (s : Process δ π) (t : LoopId) (pending : List (PendingOp ChannelId)) :
    (s.setThread t { s.threads t with pending }).view = s.view.setPending t pending := by
  rw [view_setThread_queue]
  · exact View.setEntry_self _ t
  · rfl

theorem doChannelEvent_moves (h : s.Sound) {loop : LoopId} {op : PendingOp ChannelId}
    (hwork : (s.threads t).work = .doChannelEvent loop op :: work) :
    View.Moves t s.view (s.doChannelEvent t loop op work).view ∧
      (s.doChannelEvent t loop op work).Sound := by
  have hposts := View.Moves.posts (v := s.view) hwork
  rw [doChannelEvent]
  by_cases hhandling : (s.threads loop).isHandlingPendingChannel = true
  · rw [if_pos hhandling]
    exact ⟨.stays, h⟩
  · rw [if_neg hhandling]
    refine ⟨?_, Sound.goto (h.setThread ?_)⟩
    · rw [view_goto, view_setPending]
      exact hposts
    · exact h.maps loop

theorem handlePendingChannel_moves (h : s.Sound)
    (hwork : (s.threads t).work = .handlePendingChannel :: work)
    (hret : s.handlePendingChannel S t work a = .ok s') :
    View.Moves t s.view s'.view ∧ s'.Sound := by
  unfold handlePendingChannel at hret
  dsimp only at hret
  split at hret
  · cases hret
    have hview : (s.setThread t { s.threads t with isHandlingPendingChannel := true }).view =
      s.view := view_setThread_eq rfl rfl rfl
    refine ⟨?_, h.setThread (h.maps t)⟩
    rw [hview]
    exact .stays
  split at hret
  · rename_i hpending
    cases hret
    refine ⟨?_, h.setThread (h.maps t)⟩
    have hworks : View.Moves t s.view ((s.view.tell []).goto t ([] ++ work)
        (s.view.agenda t).handler) := .works hwork trivial (fun _ => hpending) nofun nofun
    rw [View.tell_nil] at hworks
    rw [view_setThread_goto]
    · exact hworks
    · rfl
    · rfl
  · rename_i op pending hpending
    obtain ⟨loop, hop, hret⟩ := bind_eq_ok.mp hret
    cases hret
    obtain ⟨hmap, hentry⟩ := handleOp_handles h hop
    refine ⟨?_, h.setThread hmap⟩
    rw [view_setThread_queue]
    · exact .handles hwork hpending hentry
    · rfl

/-- A connection is created, and its ADD is posted after its callback. -/
theorem newConnection_view {fd : ℤ} {loop : LoopId} {callbacks : Callbacks} {instrs : List Instr}
    (h : s.Sound) (hret : s.newConnection fd loop callbacks a = .ok (s', instrs)) :
    s'.view = s.view.connect loop fd ∧ s'.Sound ∧
      ∃ new : List Instr, (∀ i ∈ new, i.Quiet) ∧
        instrs = new ++ [.doChannelEvent loop ⟨.add, .connection s.created⟩] := by
  unfold newConnection at hret
  simp only [tcpConnectionNew, bufferNew, ↓reduceIte, Option.bind_eq_bind, Option.bind_some] at hret
  cases hret
  refine ⟨?_, ⟨h.maps, ?_⟩, _, ?_, rfl⟩
  · simp only [view, View.connect, View.mk.injEq, setConnection, true_and, and_true]
    constructor
    all_goals
      funext id
      simp only [Function.update_apply]
      split_ifs <;> rfl
  · intro id hlt
    by_cases heq : id = s.created
    · subst heq
      simp only [setConnection, Function.update_self]
      exact ⟨rfl, rfl, rfl⟩
    · simp only [setConnection, Function.update_of_ne heq]
      exact h.channels id (by have hlt : id < s.created + 1 := hlt; omega)
  · intro i hi
    split_ifs at hi
    · rw [List.mem_singleton.mp hi]
      trivial
    · cases hi

theorem handleConnectionEstablished_view {instrs : List Instr} (h : s.Sound)
    (hret : s.handleConnectionEstablished S a = .ok (s', instrs)) :
    s'.view = s.view.connect a.serviceLoop a.accept ∧ s'.Sound ∧
      ∃ new : List Instr, (∀ i ∈ new, i.Quiet) ∧
        instrs = new ++ [.doChannelEvent a.serviceLoop ⟨.add, .connection s.created⟩] := by
  have haccept : (s.accept a.accept).view = s.view ∧ (s.accept a.accept).created = s.created ∧
      (s.accept a.accept).Sound := by
    unfold accept
    split_ifs
    · exact ⟨rfl, rfl, h.maps, h.channels⟩
    · exact ⟨rfl, rfl, h⟩
  obtain ⟨hview, hcreated, hsound⟩ := haccept
  have hnew := newConnection_view hsound hret
  rwa [hview, hcreated] at hnew

theorem instrs_quiet {effect : Effect} (hposts : ∀ post ∈ effect.posts, post.op = .update)
    (id : ConnectionId) : ∀ i ∈ effect.instrs id, i.Quiet := by
  intro i hi
  obtain ⟨post, hmem, rfl⟩ := List.mem_map.mp hi
  exact hposts post hmem

/-- A call of the application creates a connection, or changes the buffers of one and posts
updates. -/
theorem apiCall_cases {call : ApiCall} {instrs : List Instr}
    (hret : s.apiCall S a call = .ok (s', instrs)) :
    (∃ fd loop callbacks, s.newConnection fd loop callbacks a = .ok (s', instrs)) ∨
      ∃ id connection, connection.fixed = (s.connections id).fixed ∧
        connection.data = (s.connections id).data ∧
        s' = s.setConnection id connection ∧ ∀ i ∈ instrs, i.Quiet := by
  cases call with
  | new fd loop callbacks => exact .inl ⟨fd, loop, callbacks, hret⟩
  | sendData id data size =>
    rw [apiCall] at hret
    split_ifs at hret
    obtain ⟨⟨effect, result⟩, hsend, hret⟩ := bind_eq_ok.mp hret
    cases hret
    have honly := sendData_outputOnly hsend
    exact .inr ⟨id, _, honly.fixed, honly.data, rfl, instrs_quiet (sendData_posts hsend) id⟩
  | sendBuffer id buffer =>
    rw [apiCall] at hret
    split_ifs at hret
    obtain ⟨⟨effect, buffer', result⟩, hbuffer, hret⟩ := bind_eq_ok.mp hret
    obtain ⟨⟨effect', result'⟩, hsend, hbuffer⟩ := bind_eq_ok.mp hbuffer
    cases hret
    cases hbuffer
    have honly := sendData_outputOnly hsend
    exact .inr ⟨id, _, honly.fixed, honly.data, rfl, instrs_quiet (sendData_posts hsend) id⟩
  | shutdown id =>
    rw [apiCall] at hret
    split_ifs at hret
    cases hret
    refine .inr ⟨id, s.connections id, rfl, rfl, ?_, nofun⟩
    rw [setConnection, Function.update_eq_self]
  | consume id inputBuffer =>
    rw [apiCall] at hret
    split_ifs at hret
    cases hret
    exact .inr ⟨id, { s.connections id with inputBuffer }, rfl, rfl, rfl, nofun⟩

theorem apiCall_view {call : ApiCall} {instrs : List Instr} (h : s.Sound)
    (hret : s.apiCall S a call = .ok (s', instrs)) :
    s'.Sound ∧ ((s'.view = s.view ∧ ∀ i ∈ instrs, i.Quiet) ∨
      ∃ loop fd, ∃ new : List Instr, s'.view = s.view.connect loop fd ∧ (∀ i ∈ new, i.Quiet) ∧
        instrs = new ++ [.doChannelEvent loop ⟨.add, .connection s.created⟩]) := by
  rcases apiCall_cases hret with ⟨fd, loop, callbacks, hnew⟩ |
    ⟨id, connection, hfixed, -, rfl, hquiet⟩
  · obtain ⟨hview, hsound, new, hquiet, rfl⟩ := newConnection_view h hnew
    exact ⟨hsound, .inr ⟨loop, fd, new, hview, hquiet, rfl⟩⟩
  · exact ⟨h.setConnection hfixed, .inl ⟨view_setConnection hfixed, hquiet⟩⟩

theorem calls_quiet (calls : List ApiCall) : ∀ i ∈ calls.map Instr.call, i.Quiet := by
  intro i hi
  obtain ⟨call, -, rfl⟩ := List.mem_map.mp hi
  trivial

theorem perform_moves (h : s.Sound) {instr : Instr} (hwork : (s.threads t).work = instr :: work)
    (hret : s.perform S t instr work a = .ok s') : View.Moves t s.view s'.view ∧ s'.Sound := by
  cases instr with
  | call call =>
    obtain ⟨⟨s₁, instrs⟩, hcall, hret⟩ := bind_eq_ok.mp hret
    cases hret
    obtain ⟨hsound, hview⟩ := apiCall_view h hcall
    refine ⟨?_, hsound.goto⟩
    rw [view_goto]
    rcases hview with ⟨hview, hquiet⟩ | ⟨loop, fd, new, hview, hquiet, rfl⟩
    · have hworks : View.Moves t s.view ((s.view.tell []).goto t (instrs ++ work)
        (s.view.agenda t).handler) := .works hwork trivial (by simp) hquiet (by simp)
      rw [View.tell_nil] at hworks
      rw [hview]
      exact hworks
    · rw [hview, List.append_assoc, List.singleton_append]
      have hcall : (s.view.agenda t).work = [.call call] ++ work := hwork
      exact .connects hcall (by simp [Instr.Quiet]) (by simp) (.inr rfl) hquiet
  | onNewConnection id =>
    cases hret
    have hworks : View.Moves t s.view ((s.view.tell [(id, .onNewConnection)]).goto t
        (a.calls.map .call ++ work) (s.view.agenda t).handler) :=
      .works hwork trivial (by simp) (calls_quiet a.calls) (by simp)
    refine ⟨?_, ?_⟩
    · rw [view_goto]
      exact hworks
    · exact ⟨(h.goto (t := t)).maps, h.channels⟩
  | doChannelEvent loop op =>
    cases hret
    exact doChannelEvent_moves h hwork
  | handlePendingChannel => exact handlePendingChannel_moves h hwork hret

/-- A handler that queues nothing. -/
theorem turns_moves (h : s.Sound) {new : List Instr} {handler : Option Handler}
    (hwork : (s.threads t).work = []) (hnew : ∀ i ∈ new, i.Quiet)
    (hhandler : ∀ h, handler = some h →
      (∀ id, h ≠ .invoke id .onConnectionClosed) ∧ ∀ id, h.Touches id → s.view.Finds t id) :
    View.Moves t s.view (s.goto t new handler).view ∧ (s.goto t new handler).Sound := by
  rw [view_goto]
  exact ⟨.turns hwork hnew hhandler, h.goto⟩

/-- A callback of a connection that does not close it. -/
theorem serves_moves (h : s.Sound) (hwork : (s.threads t).work = []) {handler : Handler}
    (hhandler : (s.threads t).handler = some handler) (htouches : handler.Touches id)
    {effect : Effect} (hfixed : effect.connection.fixed = (s.connections id).fixed)
    (hposts : ∀ post ∈ effect.posts, post.op = .update)
    (hcallback : effect.callback ≠ some .onConnectionClosed) :
    View.Moves t s.view ((s.applyEffect id effect).goto t (effect.instrs id)
        (effect.callback.map (.invoke id))).view ∧
      ((s.applyEffect id effect).goto t (effect.instrs id)
        (effect.callback.map (.invoke id))).Sound := by
  have hsound : (s.applyEffect id effect).Sound :=
    ⟨(h.setConnection hfixed).maps, (h.setConnection hfixed).channels⟩
  refine ⟨?_, hsound.goto⟩
  rw [view_goto, show (s.applyEffect id effect).view = s.view from view_setConnection hfixed]
  refine .turns hwork (instrs_quiet hposts id) ?_
  intro next hnext
  obtain ⟨callback, heq, rfl⟩ := Option.map_eq_some_iff.mp hnext
  refine ⟨?_, ?_⟩
  · rintro id' heq'
    cases heq'
    exact hcallback heq
  · rintro id' ⟨rfl, -⟩
    exact .inr ⟨handler, hhandler, htouches⟩

theorem onChannelReadable_moves (h : s.Sound) (hinv : s.view.Inv stage)
    (hwork : (s.threads t).work = []) {channel : ChannelId}
    (hhandler : (s.threads t).handler = some (.readable channel))
    (hret : s.onChannelReadable S t channel a = .ok s') :
    View.Moves t s.view s'.view ∧ s'.Sound := by
  rw [onChannelReadable] at hret
  cases channel with
  | wakeup =>
    cases hret
    exact turns_moves h hwork (by simp) (by simp)
  | acceptor =>
    obtain ⟨⟨s₁, instrs⟩, haccept, hret⟩ := bind_eq_ok.mp hret
    cases hret
    obtain ⟨hview, hsound, new, hquiet, rfl⟩ := handleConnectionEstablished_view h haccept
    refine ⟨?_, hsound.goto⟩
    rw [view_goto, hview]
    have hidle : (s.view.agenda t).work = [] ++ [] := hwork
    exact .connects hidle (by simp) (fun _ => rfl) (.inl rfl) hquiet
  | connection id =>
    obtain ⟨honread, -, hdata⟩ := h.channels id (hinv.lt_created hhandler rfl)
    rw [channels, honread, hdata] at hret
    obtain ⟨effect, hread, hret⟩ := bind_eq_ok.mp hret
    cases hret
    obtain ⟨hfixed, hcases⟩ := handleRead_cases hread
    split_ifs at hcases with hends
    · have hloop : effect.connection.loop = (s.connections id).loop := congrArg Prod.fst hfixed
      have hinstrs : effect.instrs id = [.doChannelEvent (s.view.loop id)
          ⟨.delete, .connection id⟩] := by
        rw [hcases, Effect.instrs, handleConnectionClosed, hloop]
        rfl
      have hsound : (s.applyEffect id effect).Sound :=
        ⟨(h.setConnection hfixed).maps, (h.setConnection hfixed).channels⟩
      refine ⟨?_, hsound.goto⟩
      rw [view_goto, show (s.applyEffect id effect).view = s.view from view_setConnection hfixed,
        hinstrs]
      refine .closes hwork hhandler rfl ?_
      intro next hnext
      obtain ⟨callback, heq, rfl⟩ := Option.map_eq_some_iff.mp hnext
      rw [hcases, handleConnectionClosed] at heq
      dsimp only at heq
      split_ifs at heq
      rw [← Option.some.inj heq]
    · refine serves_moves h hwork hhandler rfl hfixed ?_ hcases.2
      simp [hcases.1]

theorem onChannelWriteable_moves (h : s.Sound) (hinv : s.view.Inv stage)
    (hwork : (s.threads t).work = []) {channel : ChannelId}
    (hhandler : (s.threads t).handler = some (.writeable channel))
    (hret : s.onChannelWriteable S t channel a = .ok s') :
    View.Moves t s.view s'.view ∧ s'.Sound := by
  rw [onChannelWriteable] at hret
  cases channel with
  | wakeup =>
    cases hret
    exact turns_moves h hwork nofun nofun
  | acceptor =>
    cases hret
    exact turns_moves h hwork nofun nofun
  | connection id =>
    obtain ⟨-, honwrite, hdata⟩ := h.channels id (hinv.lt_created hhandler rfl)
    rw [channels, honwrite, hdata] at hret
    obtain ⟨effect, hwrite, hret⟩ := bind_eq_ok.mp hret
    cases hret
    obtain ⟨honly, hposts, hcallback⟩ := handleWrite_cases hwrite
    exact serves_moves h hwork hhandler rfl honly.fixed hposts hcallback

theorem run_moves (h : s.Sound) (hinv : s.view.Inv stage) (hwork : (s.threads t).work = [])
    {handler : Handler} (hhandler : (s.threads t).handler = some handler)
    (hret : s.run S t handler a = .ok s') : View.Moves t s.view s'.view ∧ s'.Sound := by
  cases handler with
  | readable channel => exact onChannelReadable_moves h hinv hwork hhandler hret
  | writeable channel => exact onChannelWriteable_moves h hinv hwork hhandler hret
  | invoke id callback =>
    cases hret
    refine ⟨?_, ?_⟩
    · rw [view_goto]
      exact .invokes hwork hhandler (calls_quiet a.calls)
    · exact ⟨(h.goto (t := t)).maps, h.channels⟩

theorem eventLoopActive_finds (h : s.Sound) {fd : ℤ} {ready : Ready} {handler : Option Handler}
    (hret : s.eventLoopActive S t fd ready = .ok handler) : handler = none ∨
      ∃ channel, s.view.entry t fd = some channel ∧ handler = some (ready.handler channel) := by
  unfold eventLoopActive at hret
  dsimp only at hret
  split at hret
  · cases hret
    exact .inl rfl
  · obtain ⟨registered, hregistered, hret⟩ := bind_eq_ok.mp hret
    cases hret
    rw [registeredChannel_eq (h.maps t) hregistered]
    cases hentry : (s.threads t).loop.channelMap.entry fd with
    | none => exact .inl rfl
    | some channel => exact .inr ⟨channel, hentry, rfl⟩

theorem report_moves (h : s.Sound) (hwork : (s.threads t).work = []) {report : Report} {pass : π}
    (hret : s.report S t report pass = .ok s') : View.Moves t s.view s'.view ∧ s'.Sound := by
  cases report with
  | active fd ready =>
    obtain ⟨handler, hactive, hret⟩ := bind_eq_ok.mp hret
    cases hret
    refine ⟨?_, h.setThread (h.maps t)⟩
    rw [view_setThread_goto, hwork]
    · refine .turns hwork nofun ?_
      rintro next rfl
      rcases eventLoopActive_finds h hactive with heq | ⟨channel, hentry, heq⟩
      · cases heq
      · cases heq
        cases ready with
        | read => exact ⟨nofun, fun id htouches => .inl ⟨fd, htouches ▸ hentry⟩⟩
        | write => exact ⟨nofun, fun id htouches => .inl ⟨fd, htouches ▸ hentry⟩⟩
    all_goals rfl
  | close fd =>
    cases hret
    have hsound : (s.closeDescriptor S fd).Sound := ⟨h.maps, h.channels⟩
    refine ⟨?_, hsound.setThread (hsound.maps t)⟩
    rw [view_setThread_eq]
    · exact .stays
    all_goals rfl
  | nothing =>
    cases hret
    refine ⟨?_, h.setThread (h.maps t)⟩
    rw [view_setThread_eq]
    · exact .stays
    all_goals rfl

theorem eventLoopRun_moves (h : s.Sound) (hwork : (s.threads t).work = [])
    (hhandler : (s.threads t).handler = none) (hret : s.eventLoopRun S t a = .ok s') :
    View.Moves t s.view s'.view ∧ s'.Sound := by
  unfold eventLoopRun at hret
  dsimp only at hret
  split at hret
  · cases hret
    refine ⟨?_, h.setThread (h.maps t)⟩
    rw [view_setThread_eq]
    · exact .stays
    all_goals rfl
  · obtain ⟨next, hnext, hret⟩ := bind_eq_ok.mp hret
    split at hret
    · cases hret
      refine ⟨?_, h.setThread (h.maps t)⟩
      rw [view_setThread_goto]
      · refine .turns hwork (by simp [Instr.Quiet]) ?_
        intro handler heq
        rw [hhandler] at heq
        cases heq
      all_goals rfl
    · exact report_moves h hwork hret

theorem step_moves (h : s.Sound) (hinv : s.view.Inv stage)
    (hret : s.step S (t, a) = .ok s') : View.Moves t s.view s'.view ∧ s'.Sound := by
  unfold step at hret
  dsimp only at hret
  split at hret
  · exact perform_moves h ‹_› hret
  · exact run_moves h hinv ‹_› ‹_› hret
  · exact eventLoopRun_moves h ‹_› ‹_› hret

/-! ### Runs -/

theorem sound_init (data : LoopId → δ) (connections : ConnectionId → TcpConnection)
    (isOpen : ℤ → Bool) : (init data connections isOpen : Process δ π).Sound :=
  ⟨fun _ => ChannelMap.wellFormed_init, nofun⟩

theorem inv_init (data : LoopId → δ) (connections : ConnectionId → TcpConnection)
    (isOpen : ℤ → Bool) :
    (init data connections isOpen : Process δ π).view.Inv fun _ => .unborn := by
  refine ⟨⟨fun _ _ => rfl, nofun, fun _ => List.nodup_nil, ?_, nofun, .nil⟩, ?_⟩
  · intro t fd id hentry
    rw [show (init data connections isOpen : Process δ π).view.entry t fd = none from
      ChannelMap.entry_init fd] at hentry
    cases hentry
  · intro t
    have hwork : ∀ dest op, .doChannelEvent dest op ∈
        ((init data connections isOpen : Process δ π).view.agenda t).work →
        op = ⟨.add, .wakeup⟩ ∨ op = ⟨.add, .acceptor⟩ := by
      intro dest op hmem
      simp only [view, init, LoopThread.agenda] at hmem
      split_ifs at hmem <;> simp at hmem <;> tauto
    refine ⟨?_, ?_, ?_, nofun, nofun, nofun, nofun⟩
    · intro dest id hmem
      rcases hwork dest _ hmem with heq | heq <;> cases heq
    · simp only [view, init, LoopThread.agenda]
      split_ifs <;> exact List.nodup_nil
    · intro dest id hmem
      rcases hwork dest _ hmem with heq | heq <;> cases heq

/-- Every connection is at some stage of its life. -/
def Regular (s : Process δ π) : Prop := s.Sound ∧ ∃ stage, s.view.Inv stage

theorem regular_init (data : LoopId → δ) (connections : ConnectionId → TcpConnection)
    (isOpen : ℤ → Bool) : (init data connections isOpen : Process δ π).Regular :=
  ⟨sound_init data connections isOpen, _, inv_init data connections isOpen⟩

theorem Regular.step {event : LoopId × Answers ρ} (h : s.Regular)
    (hret : s.step S event = .ok s') : s'.Regular := by
  obtain ⟨t, a⟩ := event
  obtain ⟨hsound, stage, hinv⟩ := h
  obtain ⟨hmoves, hsound'⟩ := step_moves hsound hinv hret
  exact ⟨hsound', hinv.moves hmoves⟩

theorem Reached.regular (h : Reached S s) : s.Regular := by
  obtain ⟨data, connections, isOpen, events, hrun⟩ := h
  exact foldlM_keeps (fun _ _ _ hs hret => hs.step hret) (regular_init data connections isOpen) hrun

/-- When the application has been told that a connection is closed, it is never again told
anything of it, and no loop has it in its channel map. -/
def QuietAfterClose (s : Process δ π) : Prop :=
  ∀ id before after, s.log = before ++ (id, .onConnectionClosed) :: after →
    (∀ callback, (id, callback) ∈ after → callback = .onNewConnection) ∧
      ∀ t fd, (s.threads t).loop.channelMap.entry fd ≠ some (.connection id)

theorem Reached.quietAfterClose (h : Reached S s) : s.QuietAfterClose := by
  obtain ⟨-, stage, hinv⟩ := h.regular
  intro id before after hlog
  exact hinv.quiet_after_close hlog

theorem nothing_after_close (cast : ChannelData → Result LoopId) (callbacks : Callbacks)
    (wakeupFd : LoopId → ℤ) (acceptorFd : ℤ) (nullBehind : Bool) :
    (∀ s, Reached ⟨pollBackend, cast, callbacks, wakeupFd, acceptorFd, nullBehind⟩ s →
      s.QuietAfterClose) ∧
    ∀ s, Reached ⟨epollBackend, cast, callbacks, wakeupFd, acceptorFd, nullBehind⟩ s →
      s.QuietAfterClose :=
  ⟨fun _ h => h.quietAfterClose, fun _ h => h.quietAfterClose⟩

/-- One loop, with the epoll dispatcher and all four callbacks. -/
def singleLoop : Server InterestSet (List Report) (List EpollEvent) where
  backend := epollBackend
  cast _ := .ok 0
  callbacks := ⟨true, true, true, true⟩
  wakeupFd _ := 3
  acceptorFd := 4
  nullBehind := false

def noConnection : TcpConnection where
  loop := 0
  channel := channelNew (-1) 0 none none .tcpServer
  inputBuffer := ⟨[], 0, 0, 0⟩
  outputBuffer := ⟨[], 0, 0, 0⟩
  callbacks := ⟨false, false, false, false⟩
  data := none
  stream := ⟨[], []⟩

def singleInit : Process InterestSet (List Report) :=
  init (fun _ _ => none) (fun _ => noConnection) fun fd => decide (fd = 3 ∨ fd = 4)

def resetAnswers (reports : List EpollEvent) (calls : List ApiCall) :
    Answers (List EpollEvent) where
  reports := reports
  read := .failed .econnreset
  write := .accepts 1
  input := some fun _ => 0
  output := some fun _ => 0
  space := some fun _ => none
  accept := 5
  serviceLoop := 0
  calls := calls

/-- The loop adds its two channels, and a client is accepted for the descriptor 5. -/
def acceptRun : List (LoopId × Answers (List EpollEvent)) :=
  List.replicate 8 (0, resetAnswers [] []) ++
    (0, resetAnswers [⟨epollIn, 4⟩] []) :: List.replicate 10 (0, resetAnswers [] [])

/-- Then the descriptor is reported for both events, and the read fails; `calls` are those of
`on_connection_closed`. -/
def resetRun (calls : List ApiCall) : List (LoopId × Answers (List EpollEvent)) :=
  acceptRun ++
    (0, resetAnswers [⟨epollIn ||| epollOut, 5⟩] []) :: List.replicate 6 (0, resetAnswers [] []) ++
    (0, resetAnswers [] calls) :: List.replicate 4 (0, resetAnswers [] [])

/-- The application sends on the connection when it is told that it is closed. -/
theorem nothing_after_close_reset :
    ∃ s, (resetRun [.sendData 0 [7] 1]).foldlM (step singleLoop) singleInit = .ok s ∧
      s.log = [(0, .onNewConnection), (0, .onConnectionClosed)] ∧
      (s.connections 0).stream.accepted = [7] ∧ s.QuietAfterClose := by
  have hrun : ∃ s, (resetRun [.sendData 0 [7] 1]).foldlM (step singleLoop) singleInit = .ok s ∧
      s.log = [(0, .onNewConnection), (0, .onConnectionClosed)] ∧
      (s.connections 0).stream.accepted = [7] := exists_ok_of_any (by decide +kernel)
  obtain ⟨s, hs, hlog, haccepted⟩ := hrun
  exact ⟨s, hs, hlog, haccepted, (nothing_after_close (fun _ => .ok 0) ⟨true, true, true, true⟩
    (fun _ => 3) 4 false).2 s ⟨_, _, _, _, hs⟩⟩

end Process

end OsProgramming.Reactor
