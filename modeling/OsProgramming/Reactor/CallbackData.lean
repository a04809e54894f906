import OsProgramming.Reactor.AfterClose
import OsProgramming.Reactor.TcpServer

/-! The data that the application sets for its callbacks. A connection is given it at the end
of `handle_connection_established`, when `on_new_connection` has been called and the channel
is in the queue of its loop already. -/

namespace OsProgramming.Reactor

open Library

theorem handleRead_data {c : TcpConnection} {effect : Effect} {socket : ReadAnswer}
    {answer : Alloc Byte} (h : handleRead c socket answer = .ok effect) : effect.connection.data = c.data := by
  obtain ⟨⟨inputBuffer, size⟩, -, h⟩ := bind_eq_ok.mp h
  dsimp only at h
  split_ifs at h
  all_goals
    cases h
    rfl

namespace Process

variable {δ π ρ : Type} {S : Server δ π ρ} {s s' : Process δ π} {t : LoopId} {a : Answers ρ}
  {stage : ConnectionId → Stage}

/-- The callback that the next step of the thread invokes. -/
def called (s : Process δ π) (t : LoopId) : Option (ConnectionId × AppCallback) :=
  match (s.threads t).work, (s.threads t).handler with
  | .onNewConnection id :: _, _ => some (id, .onNewConnection)
  | [], some (.invoke id callback) => some (id, callback)
  | _, _ => none

/-- The thread is about to call `handle_connection_established`. -/
def establishes (s : Process δ π) (t : LoopId) : Bool :=
  match (s.threads t).work, (s.threads t).handler with
  | [], some (.readable .acceptor) => true
  | _, _ => false

/-- The call is recorded. -/
def told (s : Process δ π) (t : LoopId) : Process δ π :=
  { s with log := s.log ++ (s.called t).toList }

theorem told_of_none (h : s.called t = none) : s.told t = s := by
  simp [told, h]

/-- Connections are only created, and keep their data; the application is not called. -/
structure KeepsData (s s' : Process δ π) : Prop where
  log : s'.log = s.log
  created : s.created ≤ s'.created
  data : ∀ id, id < s.created → (s'.connections id).data = (s.connections id).data

namespace KeepsData

theorem of_eq (hlog : s'.log = s.log) (hcreated : s'.created = s.created)
    (hconnections : s'.connections = s.connections) : s.KeepsData s' :=
  ⟨hlog, hcreated.ge, fun id _ => by rw [hconnections]⟩

theorem setConnection (s : Process δ π) {id : ConnectionId} {connection : TcpConnection}
    (hdata : connection.data = (s.connections id).data) :
    s.KeepsData (s.setConnection id connection) := by
  refine ⟨rfl, le_rfl, fun id' _ => ?_⟩
  simp only [Process.setConnection, Function.update_apply]
  split_ifs with heq
  · rw [hdata, heq]
  · rfl

theorem goto {work : List Instr} {handler : Option Handler} (h : s.KeepsData s') :
    s.KeepsData (s'.goto t work handler) :=
  ⟨h.log, h.created, h.data⟩

end KeepsData

theorem newConnection_keepsData {fd : ℤ} {loop : LoopId} {callbacks : Callbacks}
    {instrs : List Instr} (hret : s.newConnection fd loop callbacks a = .ok (s', instrs)) :
    s.KeepsData s' ∧ s'.created = s.created + 1 ∧ (s'.connections s.created).data = none := by
  unfold newConnection at hret
  simp only [tcpConnectionNew, bufferNew, ↓reduceIte, Option.bind_eq_bind, Option.bind_some] at hret
  cases hret
  refine ⟨⟨rfl, Nat.le_succ _, fun id hlt => ?_⟩, rfl, ?_⟩
  · simp only [Process.setConnection, Function.update_of_ne hlt.ne]
  · simp only [Process.setConnection, Function.update_self]

theorem handleConnectionEstablished_keepsData {instrs : List Instr}
    (hret : s.handleConnectionEstablished S a = .ok (s', instrs)) :
    s.KeepsData s' ∧ s'.created = s.created + 1 ∧ (s'.connections s.created).data = none := by
  have hsame : (s.accept a.accept).log = s.log ∧ (s.accept a.accept).created = s.created ∧
      (s.accept a.accept).connections = s.connections := by
    unfold accept
    split_ifs <;> exact ⟨rfl, rfl, rfl⟩
  obtain ⟨hlog, hcreated, hconnections⟩ := hsame
  obtain ⟨hkeeps, hnew, hnone⟩ := newConnection_keepsData hret
  rw [hcreated] at hnew hnone
  refine ⟨⟨hkeeps.log.trans hlog, hcreated ▸ hkeeps.created, fun id hlt => ?_⟩, hnew, hnone⟩
  rw [hkeeps.data id (hcreated ▸ hlt), hconnections]

theorem apiCall_keepsData {call : ApiCall} {instrs : List Instr}
    (hret : s.apiCall S a call = .ok (s', instrs)) : s.KeepsData s' := by
  rcases apiCall_cases hret with ⟨fd, loop, callbacks, hnew⟩ | ⟨id, connection, -, hdata, rfl, -⟩
  · exact (newConnection_keepsData hnew).1
  · exact .setConnection s hdata

theorem perform_keepsData {instr : Instr} {work : List Instr}
    (hwork : (s.threads t).work = instr :: work) (hret : s.perform S t instr work a = .ok s') :
    (s.told t).KeepsData s' := by
  cases instr with
  | call call =>
    rw [told_of_none (by simp [called, hwork])]
    obtain ⟨⟨s₁, instrs⟩, hcall, hret⟩ := bind_eq_ok.mp hret
    cases hret
    exact (apiCall_keepsData hcall).goto
  | onNewConnection id =>
    cases hret
    have htold : s.told t = s.notify id .onNewConnection := by simp [told, notify, called, hwork]
    rw [htold]
    exact .of_eq rfl rfl rfl
  | doChannelEvent loop op =>
    rw [told_of_none (by simp [called, hwork])]
    cases hret
    rw [doChannelEvent]
    split_ifs <;> exact .of_eq rfl rfl rfl
  | handlePendingChannel =>
    rw [told_of_none (by simp [called, hwork])]
    unfold perform handlePendingChannel at hret
    dsimp only at hret
    split at hret
    · cases hret
      exact .of_eq rfl rfl rfl
    split at hret
    · cases hret
      exact .of_eq rfl rfl rfl
    · obtain ⟨loop, -, hret⟩ := bind_eq_ok.mp hret
      cases hret
      exact .of_eq rfl rfl rfl

theorem applyEffect_keepsData (s : Process δ π) {id : ConnectionId} {effect : Effect}
    (hdata : effect.connection.data = (s.connections id).data) :
    s.KeepsData (s.applyEffect id effect) := by
  have hkeeps := KeepsData.setConnection s hdata
  exact ⟨hkeeps.log, hkeeps.created, hkeeps.data⟩

theorem onChannelReadable_keepsData (h : s.Sound) (hinv : s.view.Inv stage) {channel : ChannelId}
    (hhandler : (s.threads t).handler = some (.readable channel))
    (hret : s.onChannelReadable S t channel a = .ok s') :
    s.KeepsData s' ∧ (channel = .acceptor →
      s'.created = s.created + 1 ∧ (s'.connections s.created).data = none) := by
  rw [onChannelReadable] at hret
  cases channel with
  | wakeup =>
    cases hret
    exact ⟨.of_eq rfl rfl rfl, by simp⟩
  | acceptor =>
    obtain ⟨⟨s₁, instrs⟩, haccept, hret⟩ := bind_eq_ok.mp hret
    cases hret
    obtain ⟨hkeeps, hnew⟩ := handleConnectionEstablished_keepsData haccept
    exact ⟨hkeeps.goto, fun _ => hnew⟩
  | connection id =>
    obtain ⟨honread, -, hdata⟩ := h.channels id (hinv.lt_created hhandler rfl)
    rw [channels, honread, hdata] at hret
    obtain ⟨effect, hread, hret⟩ := bind_eq_ok.mp hret
    cases hret
    exact ⟨(applyEffect_keepsData s (handleRead_data hread)).goto, by simp⟩

theorem onChannelWriteable_keepsData (h : s.Sound) (hinv : s.view.Inv stage) {channel : ChannelId}
    (hhandler : (s.threads t).handler = some (.writeable channel))
    (hret : s.onChannelWriteable S t channel a = .ok s') : s.KeepsData s' := by
  rw [onChannelWriteable] at hret
  cases channel with
  | wakeup =>
    cases hret
    exact .of_eq rfl rfl rfl
  | acceptor =>
    cases hret
    exact .of_eq rfl rfl rfl
  | connection id =>
    obtain ⟨-, honwrite, hdata⟩ := h.channels id (hinv.lt_created hhandler rfl)
    rw [channels, honwrite, hdata] at hret
    obtain ⟨effect, hwrite, hret⟩ := bind_eq_ok.mp hret
    cases hret
    exact (applyEffect_keepsData s (handleWrite_cases hwrite).1.data).goto

theorem eventLoopRun_keepsData (hret : s.eventLoopRun S t a = .ok s') : s.KeepsData s' := by
  unfold eventLoopRun at hret
  dsimp only at hret
  split at hret
  · cases hret
    exact .of_eq rfl rfl rfl
  · obtain ⟨next, -, hret⟩ := bind_eq_ok.mp hret
    split at hret
    · cases hret
      exact .of_eq rfl rfl rfl
    · rename_i report pass
      cases report with
      | active fd ready =>
        obtain ⟨handler, -, hret⟩ := bind_eq_ok.mp hret
        cases hret
        exact .of_eq rfl rfl rfl
      | close fd =>
        cases hret
        exact .of_eq rfl rfl rfl
      | nothing =>
        cases hret
        exact .of_eq rfl rfl rfl

/-- A step calls the application at most once, and it gives no data to a connection. -/
theorem step_keepsData (h : s.Sound) (hinv : s.view.Inv stage) (hret : s.step S (t, a) = .ok s') :
    (s.told t).KeepsData s' ∧ (s.establishes t = true →
      s'.created = s.created + 1 ∧ (s'.connections s.created).data = none) := by
  unfold step at hret
  dsimp only at hret
  cases hwork : (s.threads t).work with
  | cons instr work =>
    rw [hwork] at hret
    refine ⟨perform_keepsData hwork hret, fun hestablishes => ?_⟩
    simp [establishes, hwork] at hestablishes
  | nil =>
    rw [hwork] at hret
    cases hhandler : (s.threads t).handler with
    | none =>
      rw [hhandler] at hret
      rw [told_of_none (by simp [called, hwork, hhandler])]
      exact ⟨eventLoopRun_keepsData hret, fun hestablishes => by
        simp [establishes, hwork, hhandler] at hestablishes⟩
    | some handler =>
      rw [hhandler] at hret
      cases handler with
      | readable channel =>
        rw [told_of_none (by simp [called, hwork, hhandler])]
        obtain ⟨hkeeps, hnew⟩ := onChannelReadable_keepsData h hinv hhandler hret
        refine ⟨hkeeps, fun hestablishes => hnew ?_⟩
        cases channel with
        | acceptor => rfl
        | wakeup => simp [establishes, hwork, hhandler] at hestablishes
        | connection id => simp [establishes, hwork, hhandler] at hestablishes
      | writeable channel =>
        rw [told_of_none (by simp [called, hwork, hhandler])]
        exact ⟨onChannelWriteable_keepsData h hinv hhandler hret, fun hestablishes => by
          simp [establishes, hwork, hhandler] at hestablishes⟩
      | invoke id callback =>
        cases hret
        have htold : s.told t = s.notify id callback := by
          simp [told, notify, called, hwork, hhandler]
        rw [htold]
        exact ⟨.of_eq rfl rfl rfl, fun hestablishes => by
          simp [establishes, hwork, hhandler] at hestablishes⟩

end Process

/-- The process, with the part of `handle_connection_established` that follows the creation of
the connection. `assigning` is the connection that a thread has still to give the data to,
`established` are the connections made by the function, and `returned` those for which it has
come to its end. -/
structure Establishing (δ π : Type) where
  process : Process δ π
  assigning : LoopId → Option ConnectionId
  established : List ConnectionId
  returned : List ConnectionId

namespace Establishing

variable {δ π ρ : Type} (S : Server δ π ρ) (server : TcpServer) (s : Establishing δ π)

/-- The data of the server, unless it is `NULL`, goes to the connection. -/
def assign (t : LoopId) (id : ConnectionId) : Establishing δ π :=
  { s with
    process := s.process.setConnection id (server.assignData (s.process.connections id))
    assigning := Function.update s.assigning t none
    returned := s.returned ++ [id] }

/-- When nothing is left to do of the creation, the data is assigned. -/
def step (event : LoopId × Answers ρ) : Result (Establishing δ π) :=
  let (t, a) := event
  match s.assigning t, (s.process.threads t).work with
  | some id, [] => .ok (s.assign server t id)
  | _, _ => do
    let process ← s.process.step S (t, a)
    if s.process.establishes t then
      .ok { s with
        process
        assigning := Function.update s.assigning t (some s.process.created)
        established := s.established ++ [s.process.created] }
    else .ok { s with process }

def init (data : LoopId → δ) (connections : ConnectionId → TcpConnection) (isOpen : ℤ → Bool) :
    Establishing δ π :=
  ⟨Process.init data connections isOpen, fun _ => none, [], []⟩

/-- The callback that the next step of the thread invokes. -/
def called (t : LoopId) : Option (ConnectionId × AppCallback) :=
  match s.assigning t, (s.process.threads t).work with
  | some _, [] => none
  | _, _ => s.process.called t

/-- A callback of an accepted connection is invoked while the connection has the data of the
server. -/
def SeesData (_ : LoopId × Answers ρ) (s' : Establishing δ π) : Prop :=
  ∀ called, s'.process.log = s.process.log ++ called →
    ∀ call ∈ called, call.1 ∈ s.established → (s.process.connections call.1).data = server.data

/-- No callback is invoked for a connection that is still being established. -/
def CallsEstablished (event : LoopId × Answers ρ) : Prop :=
  ∀ call ∈ s.called event.1, call.1 ∈ s.established → call.1 ∈ s.returned

instance (event : LoopId × Answers ρ) : Decidable (s.CallsEstablished event) :=
  inferInstanceAs (Decidable (∀ call ∈ s.called event.1, _))

/-- An accepted connection has the data from the end of its creation on. -/
structure Inv : Prop where
  regular : s.process.Regular
  data : ∀ id ∈ s.established, (s.process.connections id).data =
    if id ∈ s.returned then server.data else none
  established_lt : ∀ id ∈ s.established, id < s.process.created
  assigning_mem : ∀ t id, s.assigning t = some id → id ∈ s.established
  returned_mem : ∀ id ∈ s.returned, id ∈ s.established

variable {S server s} {s' : Establishing δ π} {t : LoopId} {id : ConnectionId} {a : Answers ρ}
  {event : LoopId × Answers ρ}

theorem inv_init (data : LoopId → δ) (connections : ConnectionId → TcpConnection)
    (isOpen : ℤ → Bool) : Inv server (init data connections isOpen : Establishing δ π) :=
  ⟨Process.regular_init data connections isOpen, nofun, nofun, nofun, nofun⟩

/-- A step assigns the data, or is one of the process. -/
theorem step_cases (hret : s.step S server (t, a) = .ok s') :
    (∃ id, s.assigning t = some id ∧ s.called t = none ∧ s' = s.assign server t id) ∨
      ∃ process, s.process.step S (t, a) = .ok process ∧ s.called t = s.process.called t ∧
        s' = if s.process.establishes t then
          { s with
            process
            assigning := Function.update s.assigning t (some s.process.created)
            established := s.established ++ [s.process.created] }
        else { s with process } := by
  unfold step at hret
  dsimp only at hret
  split at hret
  · cases hret
    exact .inl ⟨_, ‹_›, by simp [called, *], rfl⟩
  · rename_i hnot
    obtain ⟨process, hstep, hret⟩ := bind_eq_ok.mp hret
    refine .inr ⟨process, hstep, ?_, ?_⟩
    · unfold called
      split
      · exact absurd ‹_› (hnot _ ‹_›)
      · rfl
    · split_ifs at hret ⊢ <;> cases hret <;> rfl

theorem assignData_fixed (server : TcpServer) (c : TcpConnection) :
    (server.assignData c).fixed = c.fixed := by
  rw [TcpServer.assignData]
  split_ifs <;> rfl

theorem Inv.assign (h : s.Inv server) (hdata : server.data ≠ none) (hid : s.assigning t = some id) :
    (s.assign server t id).Inv server := by
  have hmem := h.assigning_mem t id hid
  refine ⟨?_, ?_, h.established_lt, ?_, ?_⟩
  · obtain ⟨hsound, stage, hinv⟩ := h.regular
    have hfixed := assignData_fixed server (s.process.connections id)
    refine ⟨hsound.setConnection hfixed, stage, ?_⟩
    rw [show (s.assign server t id).process.view = s.process.view from
      Process.view_setConnection hfixed]
    exact hinv
  · intro id' hid'
    simp only [Establishing.assign, Process.setConnection, Function.update_apply, List.mem_append,
      List.mem_singleton]
    by_cases heq : id' = id
    · simp [heq, TcpServer.assignData, hdata]
    · simp only [heq, if_false, or_false]
      exact h.data id' hid'
  · intro t' id' hid'
    simp only [Establishing.assign, Function.update_apply] at hid'
    split_ifs at hid'
    exact h.assigning_mem t' id' hid'
  · intro id' hid'
    rcases List.mem_append.mp hid' with hid' | hid'
    · exact h.returned_mem id' hid'
    · rw [List.mem_singleton.mp hid']
      exact hmem

/-- A connection that is created is new, and has no data. -/
theorem Inv.establish (h : s.Inv server) {process : Process δ π} (hregular : process.Regular)
    (hkeeps : (s.process.told t).KeepsData process)
    (hcreated : process.created = s.process.created + 1)
    (hnone : (process.connections s.process.created).data = none) :
    Inv server { s with
      process
      assigning := Function.update s.assigning t (some s.process.created)
      established := s.established ++ [s.process.created] } := by
  have hfresh : s.process.created ∉ s.returned := fun hmem =>
    (h.established_lt _ (h.returned_mem _ hmem)).false
  refine ⟨hregular, ?_, ?_, ?_, fun id hid => List.mem_append_left _ (h.returned_mem id hid)⟩
  · intro id hid
    rcases List.mem_append.mp hid with hid | hid
    · rw [← h.data id hid]
      exact hkeeps.data id (h.established_lt id hid)
    · rw [List.mem_singleton.mp hid]
      simp only [hnone, hfresh, if_false]
  · intro id hid
    dsimp only
    rw [hcreated]
    rcases List.mem_append.mp hid with hid | hid
    · exact (h.established_lt id hid).trans (Nat.lt_succ_self _)
    · rw [List.mem_singleton.mp hid]
      exact Nat.lt_succ_self _
  · intro t' id hid
    simp only [Function.update_apply] at hid
    split_ifs at hid
    · cases hid
      exact List.mem_append_right _ (List.mem_singleton_self _)
    · exact List.mem_append_left _ (h.assigning_mem t' id hid)

theorem Inv.step (h : s.Inv server) (hdata : server.data ≠ none)
    (hret : s.step S server event = .ok s') : s'.Inv server := by
  obtain ⟨t, a⟩ := event
  rcases step_cases hret with ⟨id, hid, -, rfl⟩ | ⟨process, hstep, -, rfl⟩
  · exact h.assign hdata hid
  · have hregular := h.regular.step hstep
    obtain ⟨hsound, stage, hinv⟩ := h.regular
    obtain ⟨hkeeps, hnew⟩ := Process.step_keepsData hsound hinv hstep
    split_ifs with hestablishes
    · obtain ⟨hcreated, hnone⟩ := hnew hestablishes
      exact h.establish hregular hkeeps hcreated hnone
    · exact ⟨hregular,
        fun id hid => (hkeeps.data id (h.established_lt id hid)).trans (h.data id hid),
        fun id hid => (h.established_lt id hid).trans_le hkeeps.created, h.assigning_mem,
        h.returned_mem⟩

theorem Inv.step_log (h : s.Inv server) (hret : s.step S server (t, a) = .ok s') :
    s'.process.log = s.process.log ++ (s.called t).toList := by
  rcases step_cases hret with ⟨id, -, hcalled, rfl⟩ | ⟨process, hstep, hcalled, rfl⟩
  · rw [hcalled]
    exact (List.append_nil _).symm
  · obtain ⟨hsound, stage, hinv⟩ := h.regular
    have hlog := (Process.step_keepsData hsound hinv hstep).1.log
    rw [hcalled]
    split_ifs <;> exact hlog

theorem Inv.seesData_iff (h : s.Inv server) (hdata : server.data ≠ none)
    (hret : s.step S server event = .ok s') :
    s.SeesData server event s' ↔ s.CallsEstablished event := by
  obtain ⟨t, a⟩ := event
  have hsees : ∀ call : ConnectionId × AppCallback, call.1 ∈ s.established →
      ((s.process.connections call.1).data = server.data ↔ call.1 ∈ s.returned) := by
    intro call hcall
    rw [h.data call.1 hcall]
    split_ifs with hreturned
    · exact iff_of_true rfl hreturned
    · exact iff_of_false hdata.symm hreturned
  simp only [SeesData, h.step_log hret, List.append_cancel_left_eq, forall_eq', Option.mem_toList,
    CallsEstablished, Option.mem_def]
  exact forall₂_congr fun call _ => forall_congr' (hsees call)

theorem eachStep_seesData_iff (h : s.Inv server) (hdata : server.data ≠ none)
    {events : List (LoopId × Answers ρ)}
    (hrun : events.foldlM (Establishing.step S server) s = .ok s') :
    EachStep (Establishing.step S server) (SeesData server) s events ↔
      Admissible (Establishing.step S server) CallsEstablished s events := by
  have hstep : ∀ (s : Establishing δ π) event s', s.Inv server → s.CallsEstablished event →
      s.step S server event = .ok s' → s'.Inv server := fun _ _ _ hs _ hret => hs.step hdata hret
  exact eachStep_iff hstep (fun _ _ _ hs hret => hs.seesData_iff hdata hret) h hrun

/-- All callbacks see the data that was installed before if and only if none of them is invoked
for a connection that is still being established. -/
theorem callbacks_see_data_iff (S : Server δ π ρ) (workers : ℤ) (value : ℕ) (data : LoopId → δ)
    (connections : ConnectionId → TcpConnection) (isOpen : ℤ → Bool)
    {events : List (LoopId × Answers ρ)}
    (hserver : server = tcpServerSetCallbackData
      (tcpServerNew 0 S.acceptorFd S.callbacks workers) (some value))
    (hrun : events.foldlM (Establishing.step S server) (init data connections isOpen) = .ok s) :
    EachStep (Establishing.step S server) (SeesData server) (init data connections isOpen) events ↔
      Admissible (Establishing.step S server) CallsEstablished (init data connections isOpen)
        events := by
  have hdata : server.data ≠ none := by
    rw [hserver]
    nofun
  exact eachStep_seesData_iff (inv_init data connections isOpen) hdata hrun

/-- One loop, and the application has no `on_new_connection`. -/
def silentLoop : Server InterestSet (List Report) (List EpollEvent) :=
  { Process.singleLoop with callbacks := ⟨false, true, true, true⟩ }

def singleInit : Establishing InterestSet (List Report) :=
  init (fun _ _ => none) (fun _ => Process.noConnection) fun fd => decide (fd = 3 ∨ fd = 4)

/-- The application has set the data 7. -/
def dataServer (callbacks : Callbacks) : TcpServer :=
  tcpServerSetCallbackData (tcpServerNew 0 4 callbacks 0) (some 7)

/-- What the dispatcher reports in each step. -/
def answering (reports : List (List EpollEvent)) : List (LoopId × Answers (List EpollEvent)) :=
  reports.map fun events => (0, { Process.resetAnswers events [] with read := .offered [1] })

/-- A client is accepted, and `idle` steps later it sends a byte. -/
def messageRun (idle : ℕ) : List (LoopId × Answers (List EpollEvent)) :=
  answering (List.replicate 8 [] ++ [⟨epollIn, 4⟩] :: List.replicate idle [] ++
    [⟨epollIn, 5⟩] :: List.replicate 5 [])

/-- `on_new_connection` finds no data. -/
theorem new_connection_sees_no_data :
    ∃ s, (messageRun 11).foldlM (Establishing.step Process.singleLoop
        (dataServer ⟨true, true, true, true⟩)) singleInit = .ok s ∧
      s.process.log = [(0, .onNewConnection), (0, .onNewMessage)] ∧
      ¬ EachStep (Establishing.step Process.singleLoop (dataServer ⟨true, true, true, true⟩))
        (SeesData (dataServer ⟨true, true, true, true⟩)) singleInit (messageRun 11) := by
  obtain ⟨s, hs, hlog⟩ : ∃ s, (messageRun 11).foldlM (Establishing.step Process.singleLoop
      (dataServer ⟨true, true, true, true⟩)) singleInit = .ok s ∧
      s.process.log = [(0, .onNewConnection), (0, .onNewMessage)] :=
    exists_ok_of_any (by decide +kernel)
  refine ⟨s, hs, hlog, ?_⟩
  exact mt (eachStep_seesData_iff (inv_init _ _ _) (by decide) hs).mp (by decide +kernel)

theorem callbacks_see_data_message :
    ∃ s, (messageRun 10).foldlM (Establishing.step silentLoop
        (dataServer ⟨false, true, true, true⟩)) singleInit = .ok s ∧
      s.process.log = [(0, .onNewMessage)] ∧
      EachStep (Establishing.step silentLoop (dataServer ⟨false, true, true, true⟩))
        (SeesData (dataServer ⟨false, true, true, true⟩)) singleInit (messageRun 10) := by
  obtain ⟨s, hs, hlog⟩ : ∃ s, (messageRun 10).foldlM (Establishing.step silentLoop
      (dataServer ⟨false, true, true, true⟩)) singleInit = .ok s ∧
      s.process.log = [(0, .onNewMessage)] :=
    exists_ok_of_any (by decide +kernel)
  exact ⟨s, hs, hlog, (callbacks_see_data_iff silentLoop 0 7 (fun _ _ => none)
    (fun _ => Process.noConnection) (fun fd => decide (fd = 3 ∨ fd = 4)) rfl hs).mpr
      (by decide +kernel)⟩

end Establishing

end OsProgramming.Reactor
