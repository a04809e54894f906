import OsProgramming.Reactor.Process

/-! The life of a connection, as the queues, the channel maps and the work of the threads
show it. A connection is created by some thread, its ADD waits in the queue of its loop
and is handled once; from then on all that concerns it happens in the thread of its loop,
and the removal takes its entry out of the map before the application is told. -/

namespace OsProgramming.Reactor

open Library

/-- What a thread does next. -/
structure Agenda where
  work : List Instr
  handler : Option Handler

/-- The process without its memory, its sockets and the data of its dispatchers. -/
structure View where
  agenda : LoopId → Agenda
  pending : LoopId → List (PendingOp ChannelId)
  entry : LoopId → ℤ → Option ChannelId
  loop : ConnectionId → LoopId
  fd : ConnectionId → ℤ
  created : ℕ
  log : List (ConnectionId × AppCallback)

/-- The instruction posts no ADD and no DELETE. -/
def Instr.Quiet : Instr → Prop
  | .doChannelEvent _ op => op.type = .update
  | _ => True

/-- The handler serves the connection, and does not tell that it is closed. -/
def Handler.Touches (id : ConnectionId) : Handler → Prop
  | .readable channel => channel = .connection id
  | .writeable channel => channel = .connection id
  | .invoke id' callback => id' = id ∧ callback ≠ .onConnectionClosed

/-- The connection whose ADD is posted. -/
def Instr.posted : Instr → Option ConnectionId
  | .doChannelEvent _ ⟨.add, .connection id⟩ => some id
  | _ => none

/-- The connection whose ADD is queued. -/
def PendingOp.added : PendingOp ChannelId → Option ConnectionId
  | ⟨.add, .connection id⟩ => some id
  | _ => none

theorem posted_eq_some {i : Instr} {id : ConnectionId} :
    i.posted = some id ↔ ∃ dest, i = .doChannelEvent dest ⟨.add, .connection id⟩ := by
  rcases i with _ | _ | ⟨dest, type, channel⟩ | _
  case doChannelEvent => cases type <;> cases channel <;> simp [Instr.posted]
  all_goals simp [Instr.posted]

theorem added_eq_some {op : PendingOp ChannelId} {id : ConnectionId} :
    op.added = some id ↔ op = ⟨.add, .connection id⟩ := by
  obtain ⟨type, channel⟩ := op
  cases type <;> cases channel <;> simp [PendingOp.added]

namespace View

def goto (v : View) (t : LoopId) (work : List Instr) (handler : Option Handler) : View :=
  { v with agenda := Function.update v.agenda t ⟨work, handler⟩ }

/-- The application has been called. -/
def tell (v : View) (calls : List (ConnectionId × AppCallback)) : View :=
  { v with log := v.log ++ calls }

/-- A connection is created. -/
def connect (v : View) (loop : LoopId) (fd : ℤ) : View :=
  { v with
    loop := Function.update v.loop v.created loop
    fd := Function.update v.fd v.created fd
    created := v.created + 1 }

def setPending (v : View) (t : LoopId) (pending : List (PendingOp ChannelId)) : View :=
  { v with pending := Function.update v.pending t pending }

def setEntry (v : View) (t : LoopId) (entry : ℤ → Option ChannelId) : View :=
  { v with entry := Function.update v.entry t entry }

@[simp] theorem goto_self (v : View) (t : LoopId) :
    v.goto t (v.agenda t).work (v.agenda t).handler = v := by
  simp [goto]

@[simp] theorem tell_nil (v : View) : v.tell [] = v := by
  simp [tell]

@[simp] theorem setPending_self (v : View) (t : LoopId) : v.setPending t (v.pending t) = v := by
  simp [setPending]

@[simp] theorem setEntry_self (v : View) (t : LoopId) : v.setEntry t (v.entry t) = v := by
  simp [setEntry]

/-- The channel is for the descriptor. -/
def IsFor (v : View) (fd : ℤ) (channel : ChannelId) : Prop :=
  ∀ id, channel = .connection id → fd = v.fd id

/-- What an operation does to the entries of a loop. -/
def Handles (v : View) (op : PendingOp ChannelId) (entry entry' : ℤ → Option ChannelId) : Prop :=
  match op.type with
  | .add => entry' = entry ∨
      ∃ fd, 0 ≤ fd ∧ v.IsFor fd op.channel ∧ entry' = Function.update entry fd (some op.channel)
  | .delete => ∃ fd, v.IsFor fd op.channel ∧ entry' = Function.update entry fd none
  | .update => entry' = entry

/-- The thread has the connection registered, or serves it already. -/
def Finds (v : View) (t : LoopId) (id : ConnectionId) : Prop :=
  (∃ fd, v.entry t fd = some (.connection id)) ∨
    ∃ handler, (v.agenda t).handler = some handler ∧ handler.Touches id

/-- What one step of a thread does. -/
inductive Moves (t : LoopId) (v : View) : View → Prop
  | stays : Moves t v v
  /-- an instruction leads to calls and updates -/
  | works {instr : Instr} {work new : List Instr} {calls : List (ConnectionId × AppCallback)}
      (hwork : (v.agenda t).work = instr :: work) (hquiet : instr.Quiet)
      (hdone : instr = .handlePendingChannel → v.pending t = []) (hnew : ∀ i ∈ new, i.Quiet)
      (hcalls : ∀ e ∈ calls, e.2 = .onNewConnection) :
      Moves t v ((v.tell calls).goto t (new ++ work) (v.agenda t).handler)
  /-- a handler returns, or the pass goes on -/
  | turns {new : List Instr} {handler : Option Handler} (hwork : (v.agenda t).work = [])
      (hnew : ∀ i ∈ new, i.Quiet) (hhandler : ∀ h, handler = some h →
        (∀ id, h ≠ .invoke id .onConnectionClosed) ∧ ∀ id, h.Touches id → v.Finds t id) :
      Moves t v (v.goto t new handler)
  /-- `handle_connection_closed` -/
  | closes {id : ConnectionId} {h : Handler} {handler : Option Handler}
      (hwork : (v.agenda t).work = []) (hserved : (v.agenda t).handler = some h)
      (htouches : h.Touches id)
      (hhandler : ∀ h, handler = some h → h = .invoke id .onConnectionClosed) :
      Moves t v (v.goto t [.doChannelEvent (v.loop id) ⟨.delete, .connection id⟩] handler)
  /-- the application is told -/
  | invokes {id : ConnectionId} {callback : AppCallback} {new : List Instr}
      (hwork : (v.agenda t).work = []) (hhandler : (v.agenda t).handler = some (.invoke id callback))
      (hnew : ∀ i ∈ new, i.Quiet) :
      Moves t v ((v.tell [(id, callback)]).goto t new none)
  /-- `tcp_connection_new` -/
  | connects {old work new : List Instr} {handler : Option Handler} {loop : LoopId} {fd : ℤ}
      (hwork : (v.agenda t).work = old ++ work)
      (hold : ∀ i ∈ old, i.Quiet ∧ i ≠ .handlePendingChannel)
      (hidle : old = [] → work = []) (hhandler : handler = none ∨ handler = (v.agenda t).handler)
      (hnew : ∀ i ∈ new, i.Quiet) :
      Moves t v ((v.connect loop fd).goto t
        (new ++ .doChannelEvent loop ⟨.add, .connection v.created⟩ :: work) handler)
  /-- an operation is queued -/
  | posts {loop : LoopId} {op : PendingOp ChannelId} {work : List Instr}
      (hwork : (v.agenda t).work = .doChannelEvent loop op :: work) :
      Moves t v ((v.setPending loop (v.pending loop ++ [op])).goto t
        (if loop = t then .handlePendingChannel :: work else work) (v.agenda t).handler)
  /-- an operation is handled -/
  | handles {op : PendingOp ChannelId} {pending : List (PendingOp ChannelId)} {work : List Instr}
      {entry : ℤ → Option ChannelId} (hwork : (v.agenda t).work = .handlePendingChannel :: work)
      (hpending : v.pending t = op :: pending) (hentry : v.Handles op (v.entry t) entry) :
      Moves t v ((v.setPending t pending).setEntry t entry)

end View

/-- Where a connection is in its life. -/
inductive Stage where
  | unborn
  /-- the thread has created it and not yet posted its ADD -/
  | posting (t : LoopId)
  | queued
  /-- the ADD is handled -/
  | served
  /-- `handle_connection_closed` has not yet posted the DELETE -/
  | removing
  | draining
  /-- the DELETE is handled -/
  | closed

/-- The connection has not been served yet. -/
def Stage.Early (stage : Stage) : Prop :=
  stage = .unborn ∨ (∃ t, stage = .posting t) ∨ stage = .queued

/-- The thread of the loop is in `handle_connection_closed`, before the DELETE is handled. -/
def Stage.Closing (stage : Stage) : Prop := stage = .removing ∨ stage = .draining

/-- What the agenda of a thread tells about the connections, beside the queue of its loop. -/
structure OnAgenda (loop : ConnectionId → LoopId) (log : List (ConnectionId × AppCallback))
    (stage : ConnectionId → Stage) (t : LoopId) (pending : List (PendingOp ChannelId))
    (a : Agenda) : Prop where
  posting : ∀ dest id, Instr.doChannelEvent dest ⟨.add, .connection id⟩ ∈ a.work →
    stage id = .posting t ∧ dest = loop id
  posted_once : (a.work.filterMap Instr.posted).Nodup
  deleting : ∀ dest id, Instr.doChannelEvent dest ⟨.delete, .connection id⟩ ∈ a.work →
    stage id = .removing ∧ t = loop id
  removing : ∀ id, stage id = .removing → t = loop id →
    a.work = [.doChannelEvent t ⟨.delete, .connection id⟩]
  draining : ∀ id, stage id = .draining → t = loop id →
    a.work = [.handlePendingChannel] ∧ ⟨.delete, .connection id⟩ ∈ pending
  touched : ∀ h id, a.handler = some h → h.Touches id → stage id = .served ∧ t = loop id
  closing : ∀ id, a.handler = some (.invoke id .onConnectionClosed) →
    ((stage id).Closing ∨ stage id = .closed) ∧ t = loop id ∧ (id, .onConnectionClosed) ∉ log

namespace View

/-- What the queues, the channel maps and the calls of the application tell. -/
structure OnRecord (v : View) (stage : ConnectionId → Stage) : Prop where
  unborn : ∀ id, v.created ≤ id → stage id = .unborn
  queued : ∀ loop id, ⟨.add, .connection id⟩ ∈ v.pending loop →
    stage id = .queued ∧ loop = v.loop id
  queued_once : ∀ loop, ((v.pending loop).filterMap PendingOp.added).Nodup
  entered : ∀ loop fd id, v.entry loop fd = some (.connection id) →
    loop = v.loop id ∧ fd = v.fd id ∧ 0 ≤ fd ∧ (stage id = .served ∨ (stage id).Closing)
  closed : ∀ id, (id, .onConnectionClosed) ∈ v.log → stage id = .closed
  silent : v.log.Pairwise fun a b => a.2 = .onConnectionClosed → b.1 = a.1 → b.2 = .onNewConnection

structure Inv (v : View) (stage : ConnectionId → Stage) : Prop extends OnRecord v stage where
  agenda : ∀ t, OnAgenda v.loop v.log stage t (v.pending t) (v.agenda t)

end View

/-! ### Agendas -/

section

variable {loop : ConnectionId → LoopId} {log : List (ConnectionId × AppCallback)}
  {stage : ConnectionId → Stage} {t : LoopId} {pending : List (PendingOp ChannelId)}
  {work new : List Instr} {instr : Instr} {handler : Option Handler} {a : Agenda}
  {id : ConnectionId}

theorem Instr.Quiet.posted {i : Instr} (h : i.Quiet) : i.posted = none := by
  cases i with
  | doChannelEvent dest op =>
    obtain ⟨type, channel⟩ := op
    obtain rfl : type = .update := h
    rfl
  | _ => rfl

theorem posted_of_quiet (hnew : ∀ i ∈ new, i.Quiet) (work : List Instr) :
    (new ++ work).filterMap Instr.posted = work.filterMap Instr.posted := by
  rw [List.filterMap_append, List.filterMap_eq_nil_iff.mpr fun i hi => (hnew i hi).posted,
    List.nil_append]

/-- A thread with nothing to do is not in `handle_connection_closed`. -/
theorem OnAgenda.not_closing (h : OnAgenda loop log stage t pending ⟨[], handler⟩)
    (ht : t = loop id) : ¬ (stage id).Closing := by
  rintro (hstage | hstage)
  · cases h.removing id hstage ht
  · cases (h.draining id hstage ht).1

/-- A thread does its next instructions and finds new ones. It is not on its way to handle
the queue for a connection that is closing. -/
theorem OnAgenda.resume {old : List Instr} {handler' : Option Handler}
    (h : OnAgenda loop log stage t pending ⟨old ++ work, handler⟩)
    (hidle : old = [] → work = [])
    (hdelete : ∀ dest id, .doChannelEvent dest ⟨.delete, .connection id⟩ ∉ old)
    (hdone : .handlePendingChannel ∈ old → pending = [])
    (hnew : ∀ dest op, op.type ≠ .update → .doChannelEvent dest op ∈ new →
      ∃ id, op = ⟨.add, .connection id⟩ ∧ stage id = .posting t ∧ dest = loop id)
    (honce : ((new ++ work).filterMap Instr.posted).Nodup)
    (htouched : ∀ h id, handler' = some h → h.Touches id → stage id = .served ∧ t = loop id)
    (hclosing : ∀ id, handler' = some (.invoke id .onConnectionClosed) →
      ((stage id).Closing ∨ stage id = .closed) ∧ t = loop id ∧ (id, .onConnectionClosed) ∉ log) :
    OnAgenda loop log stage t pending ⟨new ++ work, handler'⟩ := by
  have hhead : ∀ i, old ++ work = [i] → i ∈ old := by
    intro i heq
    cases old with
    | nil =>
      rw [hidle rfl] at heq
      cases heq
    | cons j old =>
      rw [List.cons_append, List.cons.injEq] at heq
      rw [heq.1]
      exact List.mem_cons_self
  refine ⟨?_, honce, ?_, ?_, ?_, htouched, hclosing⟩
  · intro dest id hmem
    rcases List.mem_append.mp hmem with hmem | hmem
    · obtain ⟨id', hop, hstage, hdest⟩ := hnew dest ⟨.add, .connection id⟩ nofun hmem
      cases hop
      exact ⟨hstage, hdest⟩
    · exact h.posting dest id (List.mem_append_right old hmem)
  · intro dest id hmem
    rcases List.mem_append.mp hmem with hmem | hmem
    · obtain ⟨id', hop, -, -⟩ := hnew dest ⟨.delete, .connection id⟩ nofun hmem
      cases hop
    · exact h.deleting dest id (List.mem_append_right old hmem)
  · intro id hstage ht
    exact absurd (hhead _ (h.removing id hstage ht)) (hdelete t id)
  · intro id hstage ht
    obtain ⟨hwork, hmem⟩ := h.draining id hstage ht
    rw [hdone (hhead _ hwork)] at hmem
    cases hmem

theorem OnAgenda.works (h : OnAgenda loop log stage t pending ⟨instr :: work, handler⟩)
    (hquiet : instr.Quiet) (hdone : instr = .handlePendingChannel → pending = [])
    (hnew : ∀ i ∈ new, i.Quiet) : OnAgenda loop log stage t pending ⟨new ++ work, handler⟩ := by
  have hold : OnAgenda loop log stage t pending ⟨[instr] ++ work, handler⟩ := h
  refine hold.resume nofun ?_ ?_ ?_ ?_ h.touched h.closing
  · intro dest id hmem
    rw [← List.mem_singleton.mp hmem] at hquiet
    cases hquiet
  · exact fun hmem => hdone (List.mem_singleton.mp hmem).symm
  · exact fun dest op hop hmem => absurd (hnew _ hmem) hop
  · have honce := h.posted_once
    rw [posted_of_quiet hnew]
    rwa [List.filterMap_cons_none hquiet.posted] at honce

/-- A thread with nothing to do starts a handler. -/
theorem OnAgenda.turns {handler' : Option Handler}
    (h : OnAgenda loop log stage t pending ⟨[], handler⟩) (hnew : ∀ i ∈ new, i.Quiet)
    (htouched : ∀ h id, handler' = some h → h.Touches id → stage id = .served ∧ t = loop id)
    (hclosing : ∀ id, handler' ≠ some (.invoke id .onConnectionClosed)) :
    OnAgenda loop log stage t pending ⟨new, handler'⟩ := by
  have hold : OnAgenda loop log stage t pending ⟨[] ++ [], handler⟩ := h
  rw [← List.append_nil new]
  refine hold.resume (fun _ => rfl) nofun nofun ?_ ?_ htouched fun id heq => absurd heq (hclosing id)
  · exact fun dest op hop hmem => absurd (hnew _ hmem) hop
  · rw [posted_of_quiet hnew]
    exact List.nodup_nil

/-- The thread goes on with `handle_connection_closed`. -/
theorem OnAgenda.closes {next : Stage} (ht : t = loop id)
    (hother : ∀ id', t = loop id' → (stage id').Closing → id' = id)
    (hwork : next = .removing ∧ work = [.doChannelEvent t ⟨.delete, .connection id⟩] ∨
      next = .draining ∧ work = [.handlePendingChannel] ∧ ⟨.delete, .connection id⟩ ∈ pending)
    (htouched : ∀ h id', handler = some h → h.Touches id' →
      Function.update stage id next id' = .served ∧ t = loop id')
    (hclosing : ∀ id', handler = some (.invoke id' .onConnectionClosed) →
      ((Function.update stage id next id').Closing ∨ Function.update stage id next id' = .closed) ∧
        t = loop id' ∧ (id', .onConnectionClosed) ∉ log) :
    OnAgenda loop log (Function.update stage id next) t pending ⟨work, handler⟩ := by
  have hself : ∀ id', t = loop id' → (Function.update stage id next id').Closing → id' = id := by
    intro id' ht' hstage
    by_contra hne
    rw [Function.update_of_ne hne] at hstage
    exact hne (hother id' ht' hstage)
  rcases hwork with ⟨rfl, rfl⟩ | ⟨rfl, rfl, hdelete⟩
  · refine ⟨?_, ?_, ?_, ?_, ?_, htouched, hclosing⟩
    · intro dest id' hmem
      simp at hmem
    · rw [List.filterMap_cons_none rfl]
      exact List.nodup_nil
    · intro dest id' hmem
      simp only [List.mem_singleton, Instr.doChannelEvent.injEq, PendingOp.mk.injEq,
        ChannelId.connection.injEq, true_and] at hmem
      obtain ⟨-, rfl⟩ := hmem
      exact ⟨Function.update_self .., ht⟩
    · intro id' hstage ht'
      rw [hself id' ht' (.inl hstage)]
    · intro id' hstage ht'
      obtain rfl := hself id' ht' (.inr hstage)
      rw [Function.update_self] at hstage
      cases hstage
  · refine ⟨?_, List.nodup_nil, ?_, ?_, ?_, htouched, hclosing⟩
    · intro dest id' hmem
      simp at hmem
    · intro dest id' hmem
      simp at hmem
    · intro id' hstage ht'
      obtain rfl := hself id' ht' (.inl hstage)
      rw [Function.update_self] at hstage
      cases hstage
    · intro id' hstage ht'
      rw [hself id' ht' (.inr hstage)]
      exact ⟨rfl, hdelete⟩

/-- A connection moves on that the agenda does not tell of. -/
theorem OnAgenda.update (h : OnAgenda loop log stage t pending a) {next : Stage}
    (hpost : ∀ dest, .doChannelEvent dest ⟨.add, .connection id⟩ ∉ a.work)
    (hloop : t ≠ loop id ∨ (stage id).Early ∧ ¬ next.Closing) :
    OnAgenda loop log (Function.update stage id next) t pending a := by
  have hother : ∀ id', t = loop id' → ¬ (stage id').Early →
      Function.update stage id next id' = stage id' := by
    intro id' ht hearly
    rw [Function.update_apply, if_neg]
    rintro rfl
    rcases hloop with hloop | hloop
    · exact hloop ht
    · exact hearly hloop.1
  have hback : ∀ id', t = loop id' → (Function.update stage id next id').Closing →
      Function.update stage id next id' = stage id' := by
    intro id' ht hclosing
    rw [Function.update_apply] at hclosing ⊢
    split_ifs at hclosing ⊢ with heq
    · subst heq
      rcases hloop with hloop | hloop
      · exact absurd ht hloop
      · exact absurd hclosing hloop.2
    · rfl
  refine ⟨?_, h.posted_once, ?_, ?_, ?_, ?_, ?_⟩
  · intro dest id' hmem
    obtain ⟨hstage, hdest⟩ := h.posting dest id' hmem
    have hne : id' ≠ id := fun heq => hpost dest (heq ▸ hmem)
    rw [Function.update_of_ne hne]
    exact ⟨hstage, hdest⟩
  · intro dest id' hmem
    obtain ⟨hstage, ht⟩ := h.deleting dest id' hmem
    rw [hother id' ht (by simp [hstage, Stage.Early])]
    exact ⟨hstage, ht⟩
  · intro id' hstage ht
    rw [hback id' ht (by simp [hstage, Stage.Closing])] at hstage
    exact h.removing id' hstage ht
  · intro id' hstage ht
    rw [hback id' ht (by simp [hstage, Stage.Closing])] at hstage
    exact h.draining id' hstage ht
  · intro handler id' hhandler htouches
    obtain ⟨hstage, ht⟩ := h.touched handler id' hhandler htouches
    rw [hother id' ht (by simp [hstage, Stage.Early])]
    exact ⟨hstage, ht⟩
  · intro id' hhandler
    obtain ⟨hstage, ht, hlog⟩ := h.closing id' hhandler
    have hearly : ¬ (stage id').Early := by
      rcases hstage with (hstage | hstage) | hstage <;> simp [hstage, Stage.Early]
    rw [hother id' ht hearly]
    exact ⟨hstage, ht, hlog⟩

theorem OnAgenda.connect (h : OnAgenda loop log stage t pending a) (hunborn : stage id = .unborn)
    {dest : LoopId} {thread : LoopId} :
    OnAgenda (Function.update loop id dest) log (Function.update stage id (.posting thread)) t
      pending a := by
  have hne : ∀ id', stage id' ≠ .unborn → id' ≠ id := by
    rintro id' hstage rfl
    exact hstage hunborn
  have hback : ∀ id', (Function.update stage id (.posting thread) id').Closing → id' ≠ id := by
    rintro id' hstage rfl
    simp [Stage.Closing] at hstage
  refine ⟨?_, h.posted_once, ?_, ?_, ?_, ?_, ?_⟩
  · intro dest id' hmem
    have hold := h.posting dest id' hmem
    have hid := hne id' (by rw [hold.1]; nofun)
    rwa [Function.update_of_ne hid, Function.update_of_ne hid]
  · intro dest id' hmem
    have hold := h.deleting dest id' hmem
    have hid := hne id' (by rw [hold.1]; nofun)
    rwa [Function.update_of_ne hid, Function.update_of_ne hid]
  · intro id' hstage ht
    have hid := hback id' (.inl hstage)
    rw [Function.update_of_ne hid] at hstage ht
    exact h.removing id' hstage ht
  · intro id' hstage ht
    have hid := hback id' (.inr hstage)
    rw [Function.update_of_ne hid] at hstage ht
    exact h.draining id' hstage ht
  · intro handler id' hhandler htouches
    have hold := h.touched handler id' hhandler htouches
    have hid := hne id' (by rw [hold.1]; nofun)
    rwa [Function.update_of_ne hid, Function.update_of_ne hid]
  · intro id' hhandler
    have hold := h.closing id' hhandler
    have hid := hne id' (by
      rcases hold.1 with (hstage | hstage) | hstage <;> rw [hstage] <;> nofun)
    rwa [Function.update_of_ne hid, Function.update_of_ne hid]

/-- The queue changes, and the removals of the connections that are closing stay in it. -/
theorem OnAgenda.queue (h : OnAgenda loop log stage t pending a)
    {pending' : List (PendingOp ChannelId)}
    (hkept : ∀ id, stage id = .draining → t = loop id → ⟨.delete, .connection id⟩ ∈ pending →
      ⟨.delete, .connection id⟩ ∈ pending') : OnAgenda loop log stage t pending' a := by
  refine ⟨h.posting, h.posted_once, h.deleting, h.removing, ?_, h.touched, h.closing⟩
  intro id hstage ht
  obtain ⟨hwork, hdelete⟩ := h.draining id hstage ht
  exact ⟨hwork, hkept id hstage ht hdelete⟩

/-- The DELETE of a connection is handled. -/
theorem OnAgenda.drained (h : OnAgenda loop log stage t pending a) (hstage : stage id = .draining)
    {pending' : List (PendingOp ChannelId)}
    (hkept : ∀ id', id' ≠ id → ⟨.delete, .connection id'⟩ ∈ pending →
      ⟨.delete, .connection id'⟩ ∈ pending') :
    OnAgenda loop log (Function.update stage id .closed) t pending' a := by
  have hne : ∀ id', stage id' ≠ .draining → id' ≠ id := by
    rintro id' hstage' rfl
    exact hstage' hstage
  have hback : ∀ id', Function.update stage id .closed id' ≠ .closed → id' ≠ id := by
    rintro id' hstage' rfl
    exact hstage' (Function.update_self ..)
  refine ⟨?_, h.posted_once, ?_, ?_, ?_, ?_, ?_⟩
  · intro dest id' hmem
    have hold := h.posting dest id' hmem
    rwa [Function.update_of_ne (hne id' (by rw [hold.1]; nofun))]
  · intro dest id' hmem
    have hold := h.deleting dest id' hmem
    rwa [Function.update_of_ne (hne id' (by rw [hold.1]; nofun))]
  · intro id' hstage' ht
    rw [Function.update_of_ne (hback id' (by rw [hstage']; nofun))] at hstage'
    exact h.removing id' hstage' ht
  · intro id' hstage' ht
    have hid := hback id' (by rw [hstage']; nofun)
    rw [Function.update_of_ne hid] at hstage'
    obtain ⟨hwork, hmem⟩ := h.draining id' hstage' ht
    exact ⟨hwork, hkept id' hid hmem⟩
  · intro handler id' hhandler htouches
    have hold := h.touched handler id' hhandler htouches
    rwa [Function.update_of_ne (hne id' (by rw [hold.1]; nofun))]
  · intro id' hhandler
    obtain ⟨hold, ht, hlog⟩ := h.closing id' hhandler
    refine ⟨?_, ht, hlog⟩
    by_cases hid : id' = id
    · subst hid
      exact .inr (Function.update_self ..)
    · rwa [Function.update_of_ne hid]

/-- The application is called, and not told that a connection of this loop is closed. -/
theorem OnAgenda.tell (h : OnAgenda loop log stage t pending a)
    {calls : List (ConnectionId × AppCallback)}
    (hnot : ∀ id, t = loop id → (id, .onConnectionClosed) ∉ calls) :
    OnAgenda loop (log ++ calls) stage t pending a := by
  refine ⟨h.posting, h.posted_once, h.deleting, h.removing, h.draining, h.touched, ?_⟩
  intro id hhandler
  obtain ⟨hstage, ht, hlog⟩ := h.closing id hhandler
  refine ⟨hstage, ht, ?_⟩
  rw [List.mem_append, not_or]
  exact ⟨hlog, hnot id ht⟩

end

/-! ### Records -/

namespace View

variable {t : LoopId} {v : View} {stage : ConnectionId → Stage} {id : ConnectionId}
  {work : List Instr} {handler : Option Handler}

theorem OnRecord.goto (h : v.OnRecord stage) : (v.goto t work handler).OnRecord stage :=
  ⟨h.unborn, h.queued, h.queued_once, h.entered, h.closed, h.silent⟩

theorem OnRecord.tell (h : v.OnRecord stage) {calls : List (ConnectionId × AppCallback)}
    (hclosed : ∀ id, (id, .onConnectionClosed) ∈ calls → stage id = .closed)
    (hsilent : calls.Pairwise fun a b => a.2 = .onConnectionClosed → b.1 = a.1 →
      b.2 = .onNewConnection)
    (hafter : ∀ id, (id, .onConnectionClosed) ∈ v.log → ∀ e ∈ calls, e.1 = id →
      e.2 = .onNewConnection) : (v.tell calls).OnRecord stage := by
  refine ⟨h.unborn, h.queued, h.queued_once, h.entered, ?_, ?_⟩
  · intro id hmem
    exact (List.mem_append.mp hmem).elim (h.closed id) (hclosed id)
  · refine List.pairwise_append.mpr ⟨h.silent, hsilent, ?_⟩
    rintro ⟨id, callback⟩ ha b hb rfl heq
    exact hafter id ha b hb heq

/-- A connection gets to its next stage. -/
theorem OnRecord.update (h : v.OnRecord stage) {next : Stage} (hborn : stage id ≠ .unborn)
    (hqueued : ∀ loop, ⟨.add, .connection id⟩ ∈ v.pending loop → next = .queued)
    (hentered : ∀ loop fd, v.entry loop fd = some (.connection id) → next = .served ∨ next.Closing)
    (hclosed : (id, .onConnectionClosed) ∈ v.log → next = .closed) :
    v.OnRecord (Function.update stage id next) := by
  refine ⟨?_, ?_, h.queued_once, ?_, ?_, h.silent⟩
  · intro id' hle
    rw [Function.update_of_ne]
    · exact h.unborn id' hle
    · rintro rfl
      exact hborn (h.unborn id' hle)
  · intro loop id' hmem
    obtain ⟨hstage, hloop⟩ := h.queued loop id' hmem
    refine ⟨?_, hloop⟩
    by_cases heq : id' = id
    · subst heq
      rw [Function.update_self]
      exact hqueued loop hmem
    · rwa [Function.update_of_ne heq]
  · intro loop fd id' hentry
    obtain ⟨hloop, hfd, h0, hstage⟩ := h.entered loop fd id' hentry
    refine ⟨hloop, hfd, h0, ?_⟩
    by_cases heq : id' = id
    · subst heq
      rw [Function.update_self]
      exact hentered loop fd hentry
    · rwa [Function.update_of_ne heq]
  · intro id' hmem
    by_cases heq : id' = id
    · subst heq
      rw [Function.update_self]
      exact hclosed hmem
    · rw [Function.update_of_ne heq]
      exact h.closed id' hmem

theorem OnRecord.push (h : v.OnRecord stage) {loop : LoopId} {op : PendingOp ChannelId}
    (hadd : ∀ id, op = ⟨.add, .connection id⟩ → stage id = .queued ∧ loop = v.loop id ∧
      op ∉ v.pending loop) :
    (v.setPending loop (v.pending loop ++ [op])).OnRecord stage := by
  refine ⟨h.unborn, ?_, ?_, h.entered, h.closed, h.silent⟩
  · intro loop' id hmem
    by_cases heq : loop' = loop
    · subst heq
      simp only [setPending, Function.update_self, List.mem_append, List.mem_singleton] at hmem
      rcases hmem with hmem | hmem
      · exact h.queued loop' id hmem
      · obtain ⟨hstage, hloop, -⟩ := hadd id hmem.symm
        exact ⟨hstage, hloop⟩
    · simp only [setPending, Function.update_of_ne heq] at hmem
      exact h.queued loop' id hmem
  · intro loop'
    by_cases heq : loop' = loop
    · subst heq
      simp only [setPending, Function.update_self, List.filterMap_append]
      cases hop : op.added with
      | none =>
        rw [List.filterMap_cons_none hop]
        simpa using h.queued_once loop'
      | some id =>
        have hnew := (hadd id (added_eq_some.mp hop)).2.2
        have hid : id ∉ (v.pending loop').filterMap PendingOp.added := by
          intro hmem
          obtain ⟨op', hmem, hop'⟩ := List.mem_filterMap.mp hmem
          rw [added_eq_some.mp hop, ← added_eq_some.mp hop'] at hnew
          exact hnew hmem
        rw [List.filterMap_cons_some hop]
        refine List.nodup_append.mpr ⟨h.queued_once loop', List.nodup_singleton id, ?_⟩
        rintro a ha b hb rfl
        rw [List.filterMap_nil, List.mem_singleton] at hb
        exact hid (hb ▸ ha)
    · simp only [setPending, Function.update_of_ne heq]
      exact h.queued_once loop'

theorem OnRecord.pop (h : v.OnRecord stage) {op : PendingOp ChannelId}
    {pending : List (PendingOp ChannelId)} (hpending : v.pending t = op :: pending) :
    (v.setPending t pending).OnRecord stage := by
  refine ⟨h.unborn, ?_, ?_, h.entered, h.closed, h.silent⟩
  · intro loop id hmem
    refine h.queued loop id ?_
    by_cases heq : loop = t
    · subst heq
      rw [hpending]
      simp only [setPending, Function.update_self] at hmem
      exact List.mem_cons_of_mem op hmem
    · simpa only [setPending, Function.update_of_ne heq] using hmem
  · intro loop
    by_cases heq : loop = t
    · subst heq
      simp only [setPending, Function.update_self]
      have honce := h.queued_once loop
      rw [hpending] at honce
      exact honce.sublist ((List.sublist_cons_self op pending).filterMap _)
    · simp only [setPending, Function.update_of_ne heq]
      exact h.queued_once loop

theorem OnRecord.enter (h : v.OnRecord stage) {entry : ℤ → Option ChannelId}
    (hentry : ∀ fd id, entry fd = some (.connection id) → v.entry t fd = some (.connection id) ∨
      t = v.loop id ∧ fd = v.fd id ∧ 0 ≤ fd ∧ stage id = .served) :
    (v.setEntry t entry).OnRecord stage := by
  refine ⟨h.unborn, h.queued, h.queued_once, ?_, h.closed, h.silent⟩
  intro loop fd id hmem
  by_cases heq : loop = t
  · subst heq
    simp only [setEntry, Function.update_self] at hmem
    rcases hentry fd id hmem with hold | ⟨hloop, hfd, h0, hstage⟩
    · exact h.entered loop fd id hold
    · exact ⟨hloop, hfd, h0, .inl hstage⟩
  · simp only [setEntry, Function.update_of_ne heq] at hmem
    exact h.entered loop fd id hmem

end View

end OsProgramming.Reactor
