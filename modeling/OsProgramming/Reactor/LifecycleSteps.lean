import OsProgramming.Reactor.Lifecycle

/-! The steps of a thread keep what is known of the life of the connections. Each step
moves at most one connection to its next stage. -/

namespace OsProgramming.Reactor

open Library

namespace View

variable {t : LoopId} {v v' : View} {stage : ConnectionId → Stage} {id : ConnectionId}
  {work new : List Instr} {instr : Instr} {handler : Option Handler} {op : PendingOp ChannelId}

theorem Inv.goto (h : v.Inv stage)
    (hagenda : OnAgenda v.loop v.log stage t (v.pending t) ⟨work, handler⟩) :
    (v.goto t work handler).Inv stage := by
  refine ⟨h.toOnRecord.goto, ?_⟩
  intro t'
  by_cases ht : t' = t
  · subst ht
    simpa [View.goto] using hagenda
  · simpa [View.goto, ht] using h.agenda t'

theorem Inv.onAgenda (h : v.Inv stage) (hwork : (v.agenda t).work = work) :
    OnAgenda v.loop v.log stage t (v.pending t) ⟨work, (v.agenda t).handler⟩ := by
  subst hwork
  exact h.agenda t

theorem Inv.lt_created (h : v.Inv stage) {served : Handler}
    (hhandler : (v.agenda t).handler = some served) (htouches : served.Touches id) :
    id < v.created := by
  by_contra hle
  have hstage := ((h.agenda t).touched served id hhandler htouches).1
  rw [h.unborn id (not_lt.mp hle)] at hstage
  cases hstage

theorem Inv.works (h : v.Inv stage) {calls : List (ConnectionId × AppCallback)}
    (hwork : (v.agenda t).work = instr :: work) (hquiet : instr.Quiet)
    (hdone : instr = .handlePendingChannel → v.pending t = []) (hnew : ∀ i ∈ new, i.Quiet)
    (hcalls : ∀ e ∈ calls, e.2 = .onNewConnection) :
    ((v.tell calls).goto t (new ++ work) (v.agenda t).handler).Inv stage := by
  have hnot : ∀ id, (id, AppCallback.onConnectionClosed) ∉ calls := by
    intro id hmem
    cases hcalls _ hmem
  have hv : (v.tell calls).Inv stage := by
    refine ⟨h.toOnRecord.tell (fun id hmem => absurd hmem (hnot id)) ?_
      (fun _ _ e he _ => hcalls e he), fun t => (h.agenda t).tell fun id _ => hnot id⟩
    exact List.pairwise_of_forall_mem_list fun _ _ b hb _ _ => hcalls b hb
  exact hv.goto ((hv.onAgenda hwork).works hquiet hdone hnew)

/-- What a thread with nothing to do finds is served by its loop. -/
theorem Inv.served_of_finds (h : v.Inv stage) (hwork : (v.agenda t).work = [])
    (hfinds : v.Finds t id) : stage id = .served ∧ t = v.loop id := by
  rcases hfinds with ⟨fd, hentry⟩ | ⟨handler, hhandler, htouches⟩
  · obtain ⟨ht, -, -, hstage⟩ := h.entered t fd id hentry
    exact ⟨hstage.resolve_right ((h.onAgenda hwork).not_closing ht), ht⟩
  · exact (h.agenda t).touched handler id hhandler htouches

theorem Inv.turns (h : v.Inv stage) (hwork : (v.agenda t).work = [])
    (hnew : ∀ i ∈ new, i.Quiet) (hhandler : ∀ h, handler = some h →
      (∀ id, h ≠ .invoke id .onConnectionClosed) ∧ ∀ id, h.Touches id → v.Finds t id) :
    (v.goto t new handler).Inv stage := by
  refine h.goto ((h.onAgenda hwork).turns hnew ?_ ?_)
  · intro h' id heq htouches
    exact h.served_of_finds hwork ((hhandler h' heq).2 id htouches)
  · intro id heq
    exact (hhandler _ heq).1 id rfl

/-- The agenda of one thread and the stage of a connection change, which the other agendas
do not tell of. -/
theorem Inv.goto_update (h : v.Inv stage) {next : Stage}
    (hrecord : v.OnRecord (Function.update stage id next))
    (hother : ∀ t', t' ≠ t → stage id ≠ .posting t' ∧
      (t' ≠ v.loop id ∨ (stage id).Early ∧ ¬ next.Closing))
    (hagenda : OnAgenda v.loop v.log (Function.update stage id next) t (v.pending t)
      ⟨work, handler⟩) : (v.goto t work handler).Inv (Function.update stage id next) := by
  refine ⟨hrecord.goto, ?_⟩
  intro t'
  by_cases ht : t' = t
  · subst ht
    simpa [View.goto] using hagenda
  · obtain ⟨hposting, hloop⟩ := hother t' ht
    have hpost : ∀ dest, .doChannelEvent dest ⟨.add, .connection id⟩ ∉ (v.agenda t').work :=
      fun dest hmem => hposting ((h.agenda t').posting dest id hmem).1
    simpa [View.goto, ht] using (h.agenda t').update hpost hloop

theorem Inv.closes (h : v.Inv stage) {handled : Handler} (hwork : (v.agenda t).work = [])
    (hserved : (v.agenda t).handler = some handled) (htouches : handled.Touches id)
    (hhandler : ∀ h, handler = some h → h = .invoke id .onConnectionClosed) :
    (v.goto t [.doChannelEvent (v.loop id) ⟨.delete, .connection id⟩] handler).Inv
      (Function.update stage id .removing) := by
  obtain ⟨hstage, ht⟩ := (h.agenda t).touched handled id hserved htouches
  have hnot : (id, AppCallback.onConnectionClosed) ∉ v.log := by
    intro hmem
    rw [h.closed id hmem] at hstage
    cases hstage
  have hrecord : v.OnRecord (Function.update stage id .removing) := by
    refine h.toOnRecord.update (by rw [hstage]; nofun) ?_ (fun _ _ _ => .inr (.inl rfl))
      (fun hmem => absurd hmem hnot)
    intro loop hmem
    rw [(h.queued loop id hmem).1] at hstage
    cases hstage
  refine h.goto_update hrecord (fun t' hne => ⟨by rw [hstage]; nofun, .inl (ht ▸ hne)⟩) ?_
  refine OnAgenda.closes ht ?_ (.inl ⟨rfl, by rw [← ht]⟩) ?_ ?_
  · -- the thread was idle, so no other connection of its loop is closing
    intro id' ht' hclosing
    exact absurd hclosing ((h.onAgenda hwork).not_closing ht')
  · intro h' id' heq htouches'
    rw [hhandler h' heq] at htouches'
    exact absurd rfl htouches'.2
  · intro id' heq
    cases hhandler _ heq
    exact ⟨.inl (.inl (Function.update_self ..)), ht, hnot⟩

theorem Inv.invokes (h : v.Inv stage) {callback : AppCallback} (hwork : (v.agenda t).work = [])
    (hhandler : (v.agenda t).handler = some (.invoke id callback)) (hnew : ∀ i ∈ new, i.Quiet) :
    ((v.tell [(id, callback)]).goto t new none).Inv stage := by
  have hagenda := h.onAgenda hwork
  have hid : t = v.loop id ∧ (id, AppCallback.onConnectionClosed) ∉ v.log ∧
      (callback = .onConnectionClosed → stage id = .closed) := by
    by_cases hcallback : callback = .onConnectionClosed
    · subst hcallback
      obtain ⟨hstage, ht, hnot⟩ := hagenda.closing id hhandler
      exact ⟨ht, hnot, fun _ => hstage.resolve_left (hagenda.not_closing ht)⟩
    · obtain ⟨hstage, ht⟩ := hagenda.touched _ id hhandler ⟨rfl, hcallback⟩
      refine ⟨ht, ?_, fun heq => absurd heq hcallback⟩
      intro hmem
      rw [h.closed id hmem] at hstage
      cases hstage
  obtain ⟨ht, hnot, hclosed⟩ := hid
  refine ⟨OnRecord.goto (h.toOnRecord.tell ?_ (List.pairwise_singleton _ _) ?_), ?_⟩
  · intro id' hmem
    simp only [List.mem_singleton, Prod.mk.injEq] at hmem
    obtain ⟨rfl, hcallback⟩ := hmem
    exact hclosed hcallback.symm
  · intro id' hmem e he heq
    rw [List.mem_singleton] at he
    subst he heq
    exact absurd hmem hnot
  · intro t'
    by_cases ht' : t' = t
    · subst ht'
      have hidle : OnAgenda v.loop v.log stage t' (v.pending t') ⟨new, none⟩ :=
        hagenda.turns hnew (by simp) (by simp)
      simp only [View.goto, Function.update_self]
      exact ⟨hidle.posting, hidle.posted_once, hidle.deleting, hidle.removing, hidle.draining,
        hidle.touched, by simp⟩
    · simp only [View.goto, Function.update_of_ne ht']
      refine (h.agenda t').tell ?_
      intro id' hid' hmem
      simp only [List.mem_singleton, Prod.mk.injEq] at hmem
      exact ht' (by rw [hid', hmem.1, ht])

theorem Inv.connect (h : v.Inv stage) (loop : LoopId) (fd : ℤ) :
    (v.connect loop fd).Inv (Function.update stage v.created (.posting t)) := by
  have hunborn := h.unborn v.created le_rfl
  have hne : ∀ id, stage id ≠ .unborn → id ≠ v.created := by
    rintro id hstage rfl
    exact hstage hunborn
  refine ⟨⟨?_, ?_, h.queued_once, ?_, ?_, h.silent⟩, fun t' => (h.agenda t').connect hunborn⟩
  · intro id (hle : v.created + 1 ≤ id)
    have hid : id ≠ v.created := by omega
    rw [Function.update_of_ne hid]
    exact h.unborn id (by omega)
  · intro dest id hmem
    obtain ⟨hstage, hloop⟩ := h.queued dest id hmem
    have hid := hne id (by rw [hstage]; nofun)
    simp only [View.connect, Function.update_of_ne hid]
    exact ⟨hstage, hloop⟩
  · intro dest fd id hentry
    obtain ⟨hloop, hfd, h0, hstage⟩ := h.entered dest fd id hentry
    have hid := hne id (by rcases hstage with hstage | hstage | hstage <;> rw [hstage] <;> nofun)
    simp only [View.connect, Function.update_of_ne hid]
    exact ⟨hloop, hfd, h0, hstage⟩
  · intro id hmem
    have hstage := h.closed id hmem
    rwa [Function.update_of_ne (hne id (by rw [hstage]; nofun))]

theorem Inv.connects (h : v.Inv stage) {old : List Instr} {loop : LoopId} {fd : ℤ}
    (hwork : (v.agenda t).work = old ++ work)
    (hold : ∀ i ∈ old, i.Quiet ∧ i ≠ .handlePendingChannel) (hidle : old = [] → work = [])
    (hhandler : handler = none ∨ handler = (v.agenda t).handler) (hnew : ∀ i ∈ new, i.Quiet) :
    ((v.connect loop fd).goto t
      (new ++ .doChannelEvent loop ⟨.add, .connection v.created⟩ :: work) handler).Inv
      (Function.update stage v.created (.posting t)) := by
  have hborn := h.connect (t := t) loop fd
  have hagenda := hborn.onAgenda hwork
  refine hborn.goto ?_
  rw [← List.singleton_append, ← List.append_assoc]
  refine hagenda.resume hidle ?_ ?_ ?_ ?_ ?_ ?_
  · intro dest id hmem
    cases (hold _ hmem).1
  · intro hmem
    exact absurd rfl (hold _ hmem).2
  · intro dest op hop hmem
    rcases List.mem_append.mp hmem with hmem | hmem
    · exact absurd (hnew _ hmem) hop
    · cases List.mem_singleton.mp hmem
      exact ⟨v.created, rfl, Function.update_self ..,
        (Function.update_self v.created loop v.loop).symm⟩
  · -- the number of the new connection is posted for the first time
    have honce := (h.agenda t).posted_once
    rw [hwork, List.filterMap_append] at honce
    rw [List.append_assoc, posted_of_quiet hnew, List.singleton_append,
      List.filterMap_cons_some (posted_eq_some.mpr ⟨loop, rfl⟩), List.nodup_cons]
    refine ⟨?_, honce.of_append_right⟩
    intro hmem
    obtain ⟨i, hi, hposted⟩ := List.mem_filterMap.mp hmem
    obtain ⟨dest, rfl⟩ := posted_eq_some.mp hposted
    have hmem : .doChannelEvent dest ⟨.add, .connection v.created⟩ ∈ (v.agenda t).work := by
      rw [hwork]
      exact List.mem_append_right old hi
    have hstage := ((h.agenda t).posting dest v.created hmem).1
    rw [h.unborn v.created le_rfl] at hstage
    cases hstage
  · intro h' id heq htouches
    rcases hhandler with rfl | rfl
    · cases heq
    · exact hagenda.touched h' id heq htouches
  · intro id heq
    rcases hhandler with rfl | rfl
    · cases heq
    · exact hagenda.closing id heq

/-- The queue of a loop grows. -/
theorem Inv.push (h : v.Inv stage) {loop : LoopId}
    (hadd : ∀ id, op = ⟨.add, .connection id⟩ → stage id = .queued ∧ loop = v.loop id ∧
      op ∉ v.pending loop) : (v.setPending loop (v.pending loop ++ [op])).Inv stage := by
  refine ⟨h.toOnRecord.push hadd, ?_⟩
  intro t
  refine (h.agenda t).queue ?_
  intro id _ _ hmem
  by_cases ht : t = loop
  · subst ht
    simpa only [setPending, Function.update_self] using List.mem_append_left [op] hmem
  · simpa only [setPending, Function.update_of_ne ht] using hmem

/-- The DELETE of a connection is posted to the loop of its own thread. -/
theorem Inv.drains (h : v.Inv stage) {loop : LoopId}
    (hwork : (v.agenda t).work = .doChannelEvent loop ⟨.delete, .connection id⟩ :: work) :
    ((v.setPending loop (v.pending loop ++ [⟨.delete, .connection id⟩])).goto t
      (if loop = t then .handlePendingChannel :: work else work) (v.agenda t).handler).Inv
        (Function.update stage id .draining) := by
  have hagenda := h.onAgenda hwork
  obtain ⟨hstage, ht⟩ := hagenda.deleting loop id List.mem_cons_self
  cases hagenda.removing id hstage ht
  rw [if_pos rfl]
  have hpushed : (v.setPending t (v.pending t ++ [⟨.delete, .connection id⟩])).Inv stage :=
    h.push nofun
  have hrecord : (v.setPending t (v.pending t ++ [⟨.delete, .connection id⟩])).OnRecord
      (Function.update stage id .draining) := by
    refine hpushed.toOnRecord.update (by rw [hstage]; nofun) ?_ (fun _ _ _ => .inr (.inr rfl)) ?_
    · intro dest hmem
      rw [(hpushed.queued dest id hmem).1] at hstage
      cases hstage
    · intro hmem
      rw [h.closed id hmem] at hstage
      cases hstage
  refine hpushed.goto_update hrecord (fun t' hne => ⟨by rw [hstage]; nofun, .inl (ht ▸ hne)⟩) ?_
  refine OnAgenda.closes ht ?_ (.inr ⟨rfl, rfl, ?_⟩) ?_ ?_
  · rintro id' ht' (hstage' | hstage')
    · have heq := hagenda.removing id' hstage' ht'
      simpa using heq.symm
    · cases (hagenda.draining id' hstage' ht').1
  · simp [setPending]
  · intro h' id' hhandler htouches
    obtain ⟨hstage', ht'⟩ := hagenda.touched h' id' hhandler htouches
    have hne : id' ≠ id := by
      rintro rfl
      rw [hstage] at hstage'
      cases hstage'
    rw [Function.update_of_ne hne]
    exact ⟨hstage', ht'⟩
  · intro id' hhandler
    obtain ⟨hstage', ht', hnot⟩ := hagenda.closing id' hhandler
    refine ⟨?_, ht', hnot⟩
    by_cases hne : id' = id
    · subst hne
      rw [Function.update_self]
      exact .inl (.inr rfl)
    · rwa [Function.update_of_ne hne]

/-- The ADD of a connection is posted: the instruction that is done was the only one that
posts it. -/
theorem Inv.queues (h : v.Inv stage) {loop : LoopId}
    (hwork : (v.agenda t).work = .doChannelEvent loop ⟨.add, .connection id⟩ :: work)
    (hnew : ∀ i ∈ new, i.Quiet)
    (hresume : OnAgenda v.loop v.log stage t (v.pending t) ⟨new ++ work, (v.agenda t).handler⟩) :
    ((v.setPending loop (v.pending loop ++ [⟨.add, .connection id⟩])).goto t (new ++ work)
      (v.agenda t).handler).Inv (Function.update stage id .queued) := by
  have hagenda := h.onAgenda hwork
  obtain ⟨hstage, hloop⟩ := hagenda.posting loop id List.mem_cons_self
  have hrecord : v.OnRecord (Function.update stage id .queued) := by
    refine h.toOnRecord.update (by simp [hstage]) (fun _ _ => rfl) ?_ ?_
    · intro dest fd hentry
      obtain ⟨-, -, -, hserved⟩ := h.entered dest fd id hentry
      rw [hstage] at hserved
      rcases hserved with hserved | hserved | hserved <;> cases hserved
    · intro hmem
      rw [h.closed id hmem] at hstage
      cases hstage
  have hearly : (stage id).Early ∧ ¬ Stage.queued.Closing := by
    rw [hstage]
    exact ⟨.inr (.inl ⟨t, rfl⟩), by simp [Stage.Closing]⟩
  have hposted : ∀ dest, .doChannelEvent dest ⟨.add, .connection id⟩ ∉ new ++ work := by
    intro dest hmem
    have honce := hagenda.posted_once
    rw [List.filterMap_cons_some (posted_eq_some.mpr ⟨loop, rfl⟩), List.nodup_cons] at honce
    rcases List.mem_append.mp hmem with hmem | hmem
    · exact absurd (hnew _ hmem) (by simp [Instr.Quiet])
    · exact honce.1 (List.mem_filterMap.mpr ⟨_, hmem, posted_eq_some.mpr ⟨dest, rfl⟩⟩)
  apply Inv.push (h.goto_update hrecord ?_ (hresume.update hposted (.inr hearly)))
  · intro id' heq
    cases heq
    refine ⟨Function.update_self .., hloop, ?_⟩
    intro hmem
    rw [(h.queued loop id hmem).1] at hstage
    cases hstage
  · intro t' hne
    refine ⟨?_, .inr hearly⟩
    rw [hstage]
    intro heq
    cases heq
    exact hne rfl

theorem Inv.posts (h : v.Inv stage) {loop : LoopId}
    (hwork : (v.agenda t).work = .doChannelEvent loop op :: work) :
    ∃ stage', ((v.setPending loop (v.pending loop ++ [op])).goto t
      (if loop = t then .handlePendingChannel :: work else work) (v.agenda t).handler).Inv
        stage' := by
  have hagenda : OnAgenda v.loop v.log stage t (v.pending t)
      ⟨[.doChannelEvent loop op] ++ work, (v.agenda t).handler⟩ := h.onAgenda hwork
  by_cases hdelete : ∃ id, op = ⟨.delete, .connection id⟩
  · obtain ⟨id, rfl⟩ := hdelete
    exact ⟨_, h.drains hwork⟩
  rw [show (if loop = t then Instr.handlePendingChannel :: work else work) =
    (if loop = t then [Instr.handlePendingChannel] else []) ++ work by split_ifs <;> rfl]
  have hquiet : ∀ i ∈ (if loop = t then [Instr.handlePendingChannel] else []), i.Quiet := by
    intro i hi
    split_ifs at hi with hself
    · rw [List.mem_singleton.mp hi]
      trivial
    · cases hi
  have hresume : OnAgenda v.loop v.log stage t (v.pending t)
      ⟨(if loop = t then [Instr.handlePendingChannel] else []) ++ work, (v.agenda t).handler⟩ := by
    refine hagenda.resume nofun ?_ (by simp) (fun dest op hop hmem => absurd (hquiet _ hmem) hop)
      ?_ hagenda.touched hagenda.closing
    · intro dest id hmem
      cases List.mem_singleton.mp hmem
      exact hdelete ⟨id, rfl⟩
    · rw [posted_of_quiet hquiet]
      exact hagenda.posted_once.sublist ((List.sublist_cons_self _ work).filterMap _)
  by_cases hadd : ∃ id, op = ⟨.add, .connection id⟩
  · obtain ⟨id, rfl⟩ := hadd
    exact ⟨_, h.queues hwork hquiet hresume⟩
  · exact ⟨stage, (h.goto hresume).push fun id heq => absurd ⟨id, heq⟩ hadd⟩

section

variable {pending : List (PendingOp ChannelId)} {entry entry' : ℤ → Option ChannelId}

/-- Only an ADD registers a connection. -/
theorem Handles.entry_eq (h : v.Handles op entry entry') {fd : ℤ}
    (hentry : entry' fd = some (.connection id)) : entry fd = some (.connection id) ∨
      op = ⟨.add, .connection id⟩ ∧ fd = v.fd id ∧ 0 ≤ fd := by
  obtain ⟨type, channel⟩ := op
  cases type with
  | add =>
    rcases h with rfl | ⟨fd', h0, hfor, rfl⟩
    · exact .inl hentry
    · rw [Function.update_apply] at hentry
      split_ifs at hentry with hfd
      · cases hentry
        subst hfd
        exact .inr ⟨rfl, hfor id rfl, h0⟩
      · exact .inl hentry
  | delete =>
    obtain ⟨fd', -, rfl⟩ := h
    rw [Function.update_apply] at hentry
    split_ifs at hentry
    exact .inl hentry
  | update =>
    obtain rfl : entry' = entry := h
    exact .inl hentry

theorem mem_setPending (hpending : v.pending t = op :: pending) {t' : LoopId}
    {op' : PendingOp ChannelId} (hne : t' = t → op' ≠ op) (hmem : op' ∈ v.pending t') :
    op' ∈ (v.setPending t pending).pending t' := by
  by_cases ht : t' = t
  · subst ht
    rw [hpending, List.mem_cons] at hmem
    simpa only [setPending, Function.update_self] using hmem.resolve_left (hne rfl)
  · simpa only [setPending, Function.update_of_ne ht] using hmem

theorem Inv.handles_add (h : v.Inv stage) (hpending : v.pending t = ⟨.add, .connection id⟩ :: pending)
    (hentry : v.Handles ⟨.add, .connection id⟩ (v.entry t) entry) :
    ((v.setPending t pending).setEntry t entry).Inv (Function.update stage id .served) := by
  obtain ⟨hstage, ht⟩ := h.queued t id (hpending ▸ List.mem_cons_self)
  have hrecord : (v.setPending t pending).OnRecord (Function.update stage id .served) := by
    refine (h.toOnRecord.pop hpending).update (by simp [hstage]) ?_ (fun _ _ _ => .inl rfl) ?_
    · -- the queue had one ADD for the connection
      intro dest hmem
      obtain ⟨-, hdest⟩ := (h.toOnRecord.pop hpending).queued dest id hmem
      obtain rfl : dest = t := hdest.trans ht.symm
      have honce := h.queued_once dest
      rw [hpending, List.filterMap_cons_some (added_eq_some.mpr rfl), List.nodup_cons] at honce
      simp only [setPending, Function.update_self] at hmem
      exact absurd (List.mem_filterMap.mpr ⟨_, hmem, added_eq_some.mpr rfl⟩) honce.1
    · intro hmem
      rw [(h.toOnRecord.pop hpending).closed id hmem] at hstage
      cases hstage
  refine ⟨hrecord.enter ?_, ?_⟩
  · intro fd id' hmem
    rcases hentry.entry_eq hmem with hold | ⟨heq, hfd, h0⟩
    · exact .inl hold
    · cases heq
      exact .inr ⟨ht, hfd, h0, Function.update_self ..⟩
  · intro t'
    refine ((h.agenda t').update ?_ (.inr ⟨.inr (.inr hstage), by simp [Stage.Closing]⟩)).queue
      fun id' _ _ => mem_setPending hpending fun _ => by simp
    intro dest hmem
    rw [((h.agenda t').posting dest id hmem).1] at hstage
    cases hstage

theorem Inv.handles_delete (h : v.Inv stage)
    (hpending : v.pending t = ⟨.delete, .connection id⟩ :: pending)
    (hentry : v.Handles ⟨.delete, .connection id⟩ (v.entry t) entry) (hstage : stage id = .draining)
    (ht : t = v.loop id) :
    ((v.setPending t pending).setEntry t entry).Inv (Function.update stage id .closed) := by
  have hentered : ((v.setPending t pending).setEntry t entry).OnRecord stage := by
    refine (h.toOnRecord.pop hpending).enter ?_
    intro fd id' hmem
    rcases hentry.entry_eq hmem with hold | ⟨heq, -⟩
    · exact .inl hold
    · cases heq
  have hnone : entry (v.fd id) = none := by
    obtain ⟨fd, hfor, rfl⟩ := hentry
    rw [hfor id rfl, Function.update_self]
  refine ⟨hentered.update (by rw [hstage]; nofun) ?_ ?_ (fun _ => rfl), ?_⟩
  · intro dest hmem
    rw [(hentered.queued dest id hmem).1] at hstage
    cases hstage
  · intro dest fd hmem
    obtain ⟨hdest, hfd, -, -⟩ := hentered.entered dest fd id hmem
    obtain rfl : dest = t := hdest.trans ht.symm
    obtain rfl : fd = v.fd id := hfd
    simp only [setEntry, Function.update_self, hnone] at hmem
    cases hmem
  · intro t'
    refine (h.agenda t').drained hstage ?_
    intro id' hne
    exact mem_setPending hpending fun _ heq => hne (by simpa using heq)

theorem Inv.handles (h : v.Inv stage) (hpending : v.pending t = op :: pending)
    (hentry : v.Handles op (v.entry t) entry) :
    ∃ stage', ((v.setPending t pending).setEntry t entry).Inv stage' := by
  by_cases hadd : ∃ id, op = ⟨.add, .connection id⟩
  · obtain ⟨id, rfl⟩ := hadd
    exact ⟨_, h.handles_add hpending hentry⟩
  by_cases hdelete : ∃ id, op = ⟨.delete, .connection id⟩ ∧ stage id = .draining ∧ t = v.loop id
  · obtain ⟨id, rfl, hstage, ht⟩ := hdelete
    exact ⟨_, h.handles_delete hpending hentry hstage ht⟩
  refine ⟨stage, (h.toOnRecord.pop hpending).enter ?_, ?_⟩
  · intro fd id hmem
    rcases hentry.entry_eq hmem with hold | ⟨heq, -⟩
    · exact .inl hold
    · exact absurd ⟨id, heq⟩ hadd
  · intro t'
    refine (h.agenda t').queue ?_
    intro id hstage ht
    refine mem_setPending hpending ?_
    rintro rfl rfl
    exact hdelete ⟨id, rfl, hstage, ht⟩

end

theorem Inv.moves (h : v.Inv stage) (hmoves : Moves t v v') : ∃ stage', v'.Inv stage' := by
  cases hmoves with
  | stays => exact ⟨stage, h⟩
  | works hwork hquiet hdone hnew hcalls => exact ⟨stage, h.works hwork hquiet hdone hnew hcalls⟩
  | turns hwork hnew hhandler => exact ⟨stage, h.turns hwork hnew hhandler⟩
  | closes hwork hserved htouches hhandler =>
    exact ⟨_, h.closes hwork hserved htouches hhandler⟩
  | invokes hwork hhandler hnew => exact ⟨stage, h.invokes hwork hhandler hnew⟩
  | connects hwork hold hidle hhandler hnew =>
    exact ⟨_, h.connects hwork hold hidle hhandler hnew⟩
  | posts hwork => exact h.posts hwork
  | handles hwork hpending hentry => exact h.handles hpending hentry

/-- After `on_connection_closed`, nothing happens to a connection. -/
theorem Inv.quiet_after_close (h : v.Inv stage) {before after : List (ConnectionId × AppCallback)}
    (hlog : v.log = before ++ (id, .onConnectionClosed) :: after) :
    (∀ callback, (id, callback) ∈ after → callback = .onNewConnection) ∧
      ∀ loop fd, v.entry loop fd ≠ some (.connection id) := by
  constructor
  · intro callback hmem
    have hsilent := h.silent
    rw [hlog, List.pairwise_append, List.pairwise_cons] at hsilent
    exact hsilent.2.1.1 _ hmem rfl rfl
  · intro loop fd hentry
    have hstage := h.closed id (by rw [hlog]; simp)
    obtain ⟨-, -, -, hserved⟩ := h.entered loop fd id hentry
    rw [hstage] at hserved
    rcases hserved with hserved | hserved | hserved <;> cases hserved

end View

end OsProgramming.Reactor
