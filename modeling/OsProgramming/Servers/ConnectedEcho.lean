import OsProgramming.Servers.UdpConnect

/-! The connected server of `udp_connect_server.c` seen by its client. As long as it has nothing of
others to read, and the network delivers no datagram twice, it does what `udp_server.c` does for one
client, up to the line that ends it. -/

namespace OsProgramming.Servers.UdpConnect

open Library

open Greeting (maxLine)

open UdpEcho (Datagram Exchange shown)

variable {T : Type} [DecidableEq T]

/-- A client of the other program. -/
inductive SameClient : Client → UdpEcho.Client → Prop where
  | fgets : SameClient .fgets .fgets
  | recv : SameClient .recv .recvfrom
  | exited : SameClient .exited .exited
  | faulted (fault : Fault) : SameClient (.faulted fault) (.faulted fault)

theorem SameClient.fgets_right {other : UdpEcho.Client} (h : SameClient .fgets other) :
    other = .fgets := by
  cases h
  rfl

theorem SameClient.recv_right {other : UdpEcho.Client} (h : SameClient .recv other) :
    other = .recvfrom := by
  cases h
  rfl

/-- The other server never gets to send the answer to the line that ends this one. -/
inductive SameServer (client : T) : Server T → UdpEcho.Server Unit → Prop where
  | recvfrom : SameServer client .recvfrom .recvfrom
  | recv : SameServer client (.recv client) .recvfrom
  | send (payload : List UInt8) : SameServer client (.send client payload) (.sendto () payload)
  | exited (payload : List UInt8) : SameServer client (.exited client) (.sendto () payload)

/-- A datagram in the network of one client. -/
def seenBy (client : T) : Datagram T → Option (Datagram Unit)
  | .request other payload => if other = client then some (.request () payload) else none
  | .answer other payload => if other = client then some (.answer () payload) else none

theorem seenBy_request (client : T) (payload : List UInt8) :
    seenBy client (.request client payload) = some (.request () payload) := if_pos rfl

theorem seenBy_answer (client : T) (payload : List UInt8) :
    seenBy client (.answer client payload) = some (.answer () payload) := if_pos rfl

theorem seenBy_request_of_ne {client other : T} (h : other ≠ client) (payload : List UInt8) :
    seenBy client (.request other payload) = none := if_neg h

/-- The datagrams in the network and in the queue of the server. -/
def Session.datagrams (s : Session T) : List (Datagram T) :=
  s.network ++ s.queue.map fun datagram => .request datagram.1 datagram.2

def Session.onWay (s : Session T) (client : T) : List (Datagram Unit) :=
  s.datagrams.filterMap (seenBy client)

structure Same (client : T) (s : Session T) (t : Exchange Unit) : Prop where
  input : t.input () = s.input client
  clients : SameClient (s.clients client) (t.clients ())
  printed : t.printed () = s.printed client
  network : t.network.Perm (s.onWay client)
  server : SameServer client s.server t.server

/-- Nobody else is served, and no call fails. -/
structure Alone (client : T) (lines : List (List UInt8)) (s : Session T) (t : Exchange Unit) : Prop
    extends Same client s t where
  inv : Exchange.Inv (fun _ => lines) t
  refused : s.refused client = false
  serverRefused : s.serverRefused = false
  peer : s.server = .recvfrom ∨ s.server.peer = some client ∧ s.foreign client = []

/-- The other program follows, with a step or without one. -/
def Follows (client : T) (lines : List (List UInt8)) (s' : Session T) (t : Exchange Unit) : Prop :=
  ∃ t', Alone client lines s' t' ∧ (t' = t ∨ ∃ action, Exchange.step false t action = some t')

section

variable {client : T} {lines : List (List UInt8)} {s s' : Session T} {t : Exchange Unit}
  {datagram : Datagram T} {seen : Datagram Unit}

theorem onWay_of_seen (hseen : seenBy client datagram = some seen)
    (hperm : s.datagrams.Perm (datagram :: s'.datagrams)) :
    (s.onWay client).Perm (seen :: s'.onWay client) := by
  have hfilter := hperm.filterMap (seenBy client)
  rwa [List.filterMap_cons_some hseen] at hfilter

theorem onWay_of_not_seen (hseen : seenBy client datagram = none)
    (hperm : s.datagrams.Perm (datagram :: s'.datagrams)) :
    (s.onWay client).Perm (s'.onWay client) := by
  have hfilter := hperm.filterMap (seenBy client)
  rwa [List.filterMap_cons_none hseen] at hfilter

theorem datagrams_of_erase (hmem : datagram ∈ s.network) (hnetwork : s'.network = s.network.erase datagram)
    (hqueue : s'.queue = s.queue) : s.datagrams.Perm (datagram :: s'.datagrams) := by
  rw [Session.datagrams, Session.datagrams, hnetwork, hqueue, ← List.cons_append]
  exact (List.perm_cons_erase hmem).append_right _

theorem mem_of_seen (hseen : seenBy client datagram = some seen) (hmem : datagram ∈ s.datagrams)
    (h : t.network.Perm (s.onWay client)) : seen ∈ t.network :=
  h.mem_iff.mpr (List.mem_filterMap.mpr ⟨datagram, hmem, hseen⟩)

theorem onWay_of_taken (hseen : seenBy client datagram = some seen)
    (hperm : s.datagrams.Perm (datagram :: s'.datagrams)) (h : t.network.Perm (s.onWay client)) :
    (t.network.erase seen).Perm (s'.onWay client) := by
  have herase := (h.trans (onWay_of_seen hseen hperm)).erase seen
  rwa [List.erase_cons_head] at herase

/-- A datagram takes a place in the queue. -/
theorem datagrams_of_arrive {other : T} {payload : List UInt8} (hmem : .request other payload ∈ s.network)
    (hnetwork : s'.network = s.network.erase (.request other payload))
    (hqueue : s'.queue = s.queue ++ [(other, payload)]) : s.datagrams.Perm s'.datagrams := by
  rw [Session.datagrams, Session.datagrams, hnetwork, hqueue, List.map_append, ← List.append_assoc]
  refine ((List.perm_cons_erase hmem).append_right _).trans ?_
  rw [List.cons_append]
  exact (List.perm_append_singleton _ _).symm

omit [DecidableEq T] in
theorem datagrams_of_sent (hnetwork : s'.network = s.network ++ [datagram]) (hqueue : s'.queue = s.queue) :
    s'.datagrams.Perm (datagram :: s.datagrams) := by
  rw [Session.datagrams, Session.datagrams, hnetwork, hqueue, List.append_assoc, List.singleton_append]
  exact List.perm_middle

theorem onWay_of_sent (hseen : seenBy client datagram = some seen)
    (hperm : s'.datagrams.Perm (datagram :: s.datagrams)) (h : t.network.Perm (s.onWay client)) :
    (t.network ++ [seen]).Perm (s'.onWay client) :=
  (List.perm_append_singleton _ _).trans ((h.cons _).trans (onWay_of_seen hseen hperm).symm)

omit [DecidableEq T] in
theorem datagrams_of_read {other : T} {payload : List UInt8} {queue : List (T × List UInt8)}
    (hqueue : s.queue = (other, payload) :: queue) (hnetwork : s'.network = s.network)
    (hqueue' : s'.queue = queue) : s.datagrams.Perm (.request other payload :: s'.datagrams) := by
  rw [Session.datagrams, Session.datagrams, hqueue, hqueue', hnetwork, List.map_cons]
  exact List.perm_middle

/-! ### What the client does -/

/-- Where nothing has changed for the client. -/
theorem Alone.of_eq (h : Alone client lines s t) (hinput : s'.input client = s.input client)
    (hclients : s'.clients client = s.clients client) (hprinted : s'.printed client = s.printed client)
    (honWay : (s.onWay client).Perm (s'.onWay client)) (hserver : s'.server = s.server)
    (hrefused : s'.refused client = s.refused client) (hserverRefused : s'.serverRefused = s.serverRefused)
    (hpeer : s'.server = .recvfrom ∨ s'.server.peer = some client ∧ s'.foreign client = []) :
    Follows client lines s' t :=
  ⟨t, ⟨⟨hinput ▸ h.input, hclients ▸ h.clients, hprinted ▸ h.printed, h.network.trans honWay,
    hserver ▸ h.server⟩, h.inv, hrefused.trans h.refused, hserverRefused.trans h.serverRefused, hpeer⟩,
    .inl rfl⟩

theorem Alone.moves (h : Alone client lines s t) (hfits : ∀ line ∈ lines, Fits line) {t' : Exchange Unit}
    {action : UdpEcho.Action Unit} (hstep : Exchange.step false t action = some t')
    (hsame : Same client s' t') (hrefused : s'.refused client = false)
    (hserverRefused : s'.serverRefused = false)
    (hpeer : s'.server = .recvfrom ∨ s'.server.peer = some client ∧ s'.foreign client = []) :
    Follows client lines s' t :=
  ⟨t', ⟨hsame, h.inv.step (fun _ => hfits) hstep, hrefused, hserverRefused, hpeer⟩, .inr ⟨action, hstep⟩⟩

theorem Alone.exits (h : Alone client lines s t) (hfits : ∀ line ∈ lines, Fits line)
    (hphase : s.clients client = .fgets) (hinput : s.input client = []) :
    Follows client lines { s with clients := Function.update s.clients client .exited } t := by
  have hphase' : t.clients () = .fgets := (hphase ▸ h.clients).fgets_right
  have hstep : Exchange.step false t (.clientSend ()) =
      some { t with clients := Function.update t.clients () .exited } := by
    simp only [Exchange.step, hphase', h.input, hinput, if_true]
  refine h.moves hfits hstep ⟨h.input, ?_, h.printed, h.network, h.server⟩ h.refused h.serverRefused h.peer
  simp only [Function.update_self]
  exact .exited

/-- The client sends its next line. -/
theorem Alone.sends (h : Alone client lines s t) (hfits : ∀ line ∈ lines, Fits line)
    (hphase : s.clients client = .fgets) (hinput : s.input client ≠ []) :
    Follows client lines (s.send client (cString 0 (fgets newline (maxLine - 1) (s.input client)).1)
      (fgets newline (maxLine - 1) (s.input client)).2) t := by
  have hphase' : t.clients () = .fgets := (hphase ▸ h.clients).fgets_right
  have hstep : Exchange.step false t (.clientSend ()) =
      some (t.send () (cString 0 (fgets newline (maxLine - 1) (s.input client)).1)
        (fgets newline (maxLine - 1) (s.input client)).2) := by
    simp only [Exchange.step, hphase', h.input, if_neg hinput]
  generalize cString 0 (fgets newline (maxLine - 1) (s.input client)).1 = line at hstep ⊢
  rw [Exchange.send] at hstep
  rw [Session.send]
  cases hmessage : message line with
  | error fault =>
    rw [hmessage] at hstep
    refine h.moves hfits hstep ⟨h.input, ?_, h.printed, h.network, h.server⟩ h.refused h.serverRefused h.peer
    simp only [Function.update_self]
    exact .faulted fault
  | ok payload =>
    rw [hmessage] at hstep
    simp only [h.refused, Bool.false_eq_true, if_false]
    refine h.moves hfits hstep ⟨by simp, ?_, h.printed, ?_, h.server⟩ h.refused h.serverRefused h.peer
    · simp only [Function.update_self]
      exact .recv
    · exact onWay_of_sent (seenBy_request client payload) (datagrams_of_sent rfl rfl) h.network

/-- The client prints an answer. -/
theorem Alone.prints (h : Alone client lines s t) (hfits : ∀ line ∈ lines, Fits line)
    (hphase : s.clients client = .recv) {payload : List UInt8}
    (hmem : .answer client payload ∈ s.network) :
    Follows client lines { s with
      clients := Function.update s.clients client .fgets
      printed := Function.update s.printed client
        (s.printed client ++ [cString 0 (payload.take maxLine)])
      network := s.network.erase (.answer client payload) } t := by
  have hphase' : t.clients () = .recvfrom := (hphase ▸ h.clients).recv_right
  have hmem' : .answer () payload ∈ t.network :=
    mem_of_seen (seenBy_answer client payload) (List.mem_append_left _ hmem) h.network
  have hstep : Exchange.step false t (.clientReceive () payload) = some { t with
      clients := Function.update t.clients () .fgets
      printed := Function.update t.printed () (t.printed () ++ [cString 0 (payload.take maxLine)])
      network := t.network.erase (.answer () payload) } := by
    simp only [Exchange.step, hphase', if_pos hmem']
  refine h.moves hfits hstep ⟨h.input, ?_, ?_, ?_, h.server⟩ h.refused h.serverRefused h.peer
  · simp only [Function.update_self]
    exact .fgets
  · simp [h.printed]
  · exact onWay_of_taken (seenBy_answer client payload) (datagrams_of_erase hmem rfl rfl) h.network

/-- While a datagram of the client is on its way, the client waits, and there is no other. -/
theorem waits_of_mem (hinv : Exchange.Inv (fun _ => lines) t) (hmem : seen ∈ t.datagrams) :
    t.clients () = .recvfrom ∧ ∀ other ∈ t.datagrams, other = seen := by
  have hown : ∀ other ∈ t.datagrams, other ∈ t.own () := fun other hother =>
    List.mem_filter.mpr ⟨hother, by simp⟩
  cases hinv.follows () with
  | between _ _ _ _ _ _ hempty =>
    have hseen := hown seen hmem
    rw [hempty] at hseen
    cases hseen
  | waiting _ _ _ hphase _ _ _ hone =>
    refine ⟨hphase, fun other hother => ?_⟩
    have hseen := hown seen hmem
    have hother' := hown other hother
    rcases hone with hone | hone | hone <;> rw [hone] at hseen hother'
    · cases hseen
    · exact (List.mem_singleton.mp hother').trans (List.mem_singleton.mp hseen).symm
    · exact (List.mem_singleton.mp hother').trans (List.mem_singleton.mp hseen).symm

/-- The server has not ended while it has a line to read. -/
theorem Alone.accepts (h : Alone client lines s t) {payload : List UInt8}
    (hmem : .request client payload ∈ s.network) : s.server.accepts client = true := by
  have hmem' : .request () payload ∈ t.network :=
    mem_of_seen (seenBy_request client payload) (List.mem_append_left _ hmem) h.network
  have hsame := h.server
  generalize s.server = server at hsame ⊢
  generalize hserver : t.server = server' at hsame
  cases hsame with
  | recvfrom => rfl
  | recv => exact decide_eq_true rfl
  | send payload => exact decide_eq_true rfl
  | exited bytes =>
    have hpending : .answer () bytes ∈ t.datagrams := by
      rw [Exchange.datagrams, hserver]
      exact List.mem_append_right _ (List.mem_singleton_self _)
    cases (waits_of_mem h.inv hpending).2 _ (List.mem_append_left _ hmem')

/-- No answer comes to a client that has ended. -/
theorem Alone.not_ended (h : Alone client lines s t) {payload : List UInt8}
    (hmem : .answer client payload ∈ s.network) : (s.clients client).ended = false := by
  have hmem' : .answer () payload ∈ t.datagrams :=
    List.mem_append_left _ (mem_of_seen (seenBy_answer client payload) (List.mem_append_left _ hmem) h.network)
  have hclients := h.clients
  rw [(waits_of_mem h.inv hmem').1] at hclients
  generalize s.clients client = phase at hclients
  cases hclients
  rfl

/-- The server reads a line of the client. -/
theorem Alone.reads (h : Alone client lines s t) (hfits : ∀ line ∈ lines, Fits line)
    (hserver : s.server = .recvfrom ∨ s.server = .recv client) {payload : List UInt8}
    {queue : List (T × List UInt8)} (hqueue : s.queue = (client, payload) :: queue)
    (hforeign : (s.read client payload queue).foreign client = []) :
    Follows client lines (s.read client payload queue) t := by
  have hperm : s.datagrams.Perm (.request client payload :: (s.read client payload queue).datagrams) :=
    datagrams_of_read hqueue (by rw [Session.read, serve_eq]) (Session.queue_read ..)
  have hmem : .request () payload ∈ t.network :=
    mem_of_seen (seenBy_request client payload) (hperm.mem_iff.mpr List.mem_cons_self) h.network
  have hserver' : t.server = .recvfrom := by
    have hsame := h.server
    generalize t.server = server at hsame
    rcases hserver with hserver | hserver <;> rw [hserver] at hsame <;> cases hsame <;> rfl
  have hstep : Exchange.step false t (.serverReceive () payload) = some { t with
      network := t.network.erase (.request () payload)
      server := .sendto () (reply (textOf payload)) } := by
    simp only [Exchange.step, hserver', if_pos hmem, UdpEcho.answer_eq, reply_textOf]
  have hnetwork := onWay_of_taken (seenBy_request client payload) hperm h.network
  have hpeer := Session.peer_read client payload queue (s := s)
  refine h.moves hfits hstep ?_ ?_ ?_ (.inr ⟨hpeer, hforeign⟩)
  · rw [Session.read, serve_eq] at hnetwork ⊢
    refine ⟨h.input, h.clients, h.printed, hnetwork, ?_⟩
    dsimp only
    split_ifs
    · exact .exited _
    · exact .send _
  · rw [Session.read, serve_eq]
    exact h.refused
  · rw [Session.read, serve_eq]
    exact h.serverRefused

/-- The server sends its answer. -/
theorem Alone.replies (h : Alone client lines s t) (hfits : ∀ line ∈ lines, Fits line)
    {payload : List UInt8} (hserver : s.server = .send client payload) (hforeign : s.foreign client = []) :
    Follows client lines
      { s with network := s.network ++ [.answer client payload], server := .recv client } t := by
  have hserver' : t.server = .sendto () payload := by
    have hsame := h.server
    generalize t.server = server at hsame ⊢
    rw [hserver] at hsame
    cases hsame
    rfl
  have hstep : Exchange.step false t .serverSend = some { t with
      network := t.network ++ [.answer () payload]
      server := .recvfrom
      count := t.count + 1 } := by
    simp only [Exchange.step, hserver']
  refine h.moves hfits hstep ⟨h.input, h.clients, h.printed, ?_, .recv⟩ h.refused h.serverRefused
    (.inr ⟨rfl, hforeign⟩)
  exact onWay_of_sent (seenBy_answer client payload) (datagrams_of_sent rfl rfl) h.network

/-- The network loses a datagram. -/
theorem Alone.loses (h : Alone client lines s t) (hfits : ∀ line ∈ lines, Fits line)
    (hmem : datagram ∈ s.network) :
    Follows client lines { s with network := s.network.erase datagram } t := by
  cases hseen : seenBy client datagram with
  | none =>
    refine h.of_eq rfl rfl rfl ?_ rfl rfl rfl h.peer
    exact onWay_of_not_seen hseen (datagrams_of_erase hmem rfl rfl)
  | some seen =>
    have hmem' : seen ∈ t.network := mem_of_seen hseen (List.mem_append_left _ hmem) h.network
    have hstep : Exchange.step false t (.lose seen) = some { t with network := t.network.erase seen } := by
      simp only [Exchange.step, if_pos hmem']
    refine h.moves hfits hstep ⟨h.input, h.clients, h.printed, ?_, h.server⟩ h.refused h.serverRefused h.peer
    exact onWay_of_taken hseen (datagrams_of_erase hmem rfl rfl) h.network

/-! ### What the others do -/

variable {other : T}

/-- Another client sends a line. -/
theorem Alone.of_send (h : Alone client lines s t) (hother : other ≠ client) (line input : List UInt8) :
    Follows client lines (s.send other line input) t := by
  have hne : client ≠ other := hother.symm
  rw [Session.send]
  split
  · split_ifs
    · exact h.of_eq (Function.update_of_ne hne ..) (Function.update_of_ne hne ..) rfl (.refl _) rfl rfl rfl h.peer
    · refine h.of_eq (Function.update_of_ne hne ..) (Function.update_of_ne hne ..) rfl ?_ rfl rfl rfl h.peer
      exact List.Perm.symm (onWay_of_not_seen (seenBy_request_of_ne hother _) (datagrams_of_sent rfl rfl))
  · exact h.of_eq rfl (Function.update_of_ne hne ..) rfl (.refl _) rfl rfl rfl h.peer

theorem Alone.step (h : Alone client lines s t) (hs : s.Inv false) (hfits : ∀ line ∈ lines, Fits line)
    {action : Action T} (hstep : s.step false action = some s')
    (hpeer : s'.server = .recvfrom ∨ s'.server.peer = some client ∧ s'.foreign client = []) :
    Follows client lines s' t := by
  have hconnected : ∀ other, s.server.peer = some other → other = client ∧ s.foreign client = [] := by
    intro other hother
    rcases h.peer with hfree | ⟨hclient, hforeign⟩
    · rw [hfree] at hother
      cases hother
    · exact ⟨Option.some.inj (hother.symm.trans hclient), hforeign⟩
  cases Session.step_moves hstep with
  | exits other hphase hinput =>
    by_cases hother : client = other
    · subst hother
      exact h.exits hfits hphase hinput
    · exact h.of_eq rfl (Function.update_of_ne hother ..) rfl (.refl _) rfl rfl rfl h.peer
  | sends other hphase hinput =>
    by_cases hother : other = client
    · subst hother
      exact h.sends hfits hphase hinput
    · exact h.of_send hother _ _
  | prints other payload hphase hmem =>
    obtain ⟨rfl, -⟩ := hconnected other (hs.answers other payload hmem)
    exact h.prints hfits hphase hmem
  | clientFails other hrefused =>
    have hother : client ≠ other := by
      rintro rfl
      exact absurd h.refused (by simp [hrefused])
    exact h.of_eq rfl (Function.update_of_ne hother ..) rfl (.refl _) rfl rfl rfl h.peer
  | arrives other payload hmem =>
    refine h.of_eq rfl rfl rfl ?_ rfl rfl rfl hpeer
    exact List.Perm.filterMap _ (datagrams_of_arrive hmem rfl rfl)
  | refuses other payload hmem haccepts =>
    have hother : other ≠ client := by
      rintro rfl
      exact absurd (h.accepts hmem) (by simp [haccepts])
    refine h.of_eq rfl rfl rfl ?_ rfl (Function.update_of_ne hother.symm ..) rfl h.peer
    exact onWay_of_not_seen (seenBy_request_of_ne hother payload) (datagrams_of_erase hmem rfl rfl)
  | answerRefused other payload hended hmem =>
    -- nobody else is answered, and the client waits for its answer
    obtain ⟨rfl, -⟩ := hconnected other (hs.answers other payload hmem)
    exact absurd hended (by simp [h.not_ended hmem])
  | connects other payload queue hserver hqueue =>
    have hread := Session.peer_read other payload queue (s := s)
    rcases hpeer with hfree | ⟨hclient, hforeign⟩
    · rw [hfree] at hread
      cases hread
    · obtain rfl := Option.some.inj (hread.symm.trans hclient)
      exact h.reads hfits (.inl hserver) hqueue hforeign
  | reads peer other payload queue hserver hqueue =>
    obtain ⟨rfl, hforeign⟩ := hconnected peer (by rw [hserver]; rfl)
    obtain rfl : other = peer := by
      rw [Session.foreign, hqueue, List.filter_cons] at hforeign
      by_contra hne
      rw [if_pos (decide_eq_true hne)] at hforeign
      cases hforeign
    refine h.reads hfits (.inr hserver) hqueue ?_
    rw [Session.foreign, hqueue, List.filter_cons_of_neg (by simp)] at hforeign
    rwa [Session.foreign, Session.queue_read]
  | replies other payload hserver =>
    obtain ⟨rfl, hforeign⟩ := hconnected other (by rw [hserver]; rfl)
    exact h.replies hfits hserver hforeign
  | serverFails other hpeer' hserver hrefused => exact absurd h.serverRefused (by simp [hrefused])
  | loses datagram hmem => exact h.loses hfits hmem
  | duplicates datagram hduplicates => cases hduplicates

/-! ### Runs -/

open Session

theorem recvfrom_of_step {action : Action T} (hs : s.Inv false) (hstep : s.step false action = some s')
    (hserver : s'.server = .recvfrom) : s.server = .recvfrom := by
  have hpeer : ∀ peer, s.server.peer ≠ some peer := by
    intro peer hpeer
    have hpeer' := (connected_step hpeer hstep).1
    rw [hserver] at hpeer'
    cases hpeer'
  cases hbefore : s.server with
  | recvfrom => rfl
  | faulted fault => exact absurd hbefore (hs.server fault)
  | _ => exact absurd rfl (hbefore ▸ hpeer _)

/-- A run of the other program leads there. -/
def Followed (client : T) (lines : List (List UInt8)) (s : Session T) : Prop :=
  ∃ t, Reaches (Exchange.step false) (Exchange.init fun _ => joined newline lines) t ∧
    Alone client lines s t

theorem Followed.step (h : Followed client lines s) (hs : s.Inv false) (hfits : ∀ line ∈ lines, Fits line)
    {action : Action T} (hstep : s.step false action = some s')
    (hpeer : s'.server = .recvfrom ∨ s'.server.peer = some client ∧ s'.foreign client = []) :
    Followed client lines s' := by
  obtain ⟨t, hreaches, halone⟩ := h
  obtain ⟨t', halone', rfl | hmoves⟩ := halone.step hs hfits hstep hpeer
  · exact ⟨t', hreaches, halone'⟩
  · exact ⟨t', hreaches.tail hmoves, halone'⟩

variable {input : T → List UInt8}

theorem followed_init (hinput : input client = joined newline lines) :
    Followed client lines (init input) :=
  ⟨Exchange.init fun _ => joined newline lines, .refl,
    ⟨⟨hinput.symm, .fgets, rfl, .refl _, .recvfrom⟩, Exchange.inv_init, rfl, rfl, .inl rfl⟩⟩

theorem followed_of_recvfrom (hinput : input client = joined newline lines)
    (hfits : ∀ line ∈ lines, Fits line) (h : Reaches (step false) (init input) s) :
    s.server = .recvfrom → Followed client lines s := by
  induction h with
  | refl => exact fun _ => followed_init hinput
  | tail hbefore hlast ih =>
    obtain ⟨action, hstep⟩ := hlast
    have hs := inv_of_reaches hbefore
    exact fun hserver => (ih (recvfrom_of_step hs hstep hserver)).step hs hfits hstep (.inl hserver)

end

def twoInputs (client : Bool) : List UInt8 := joined newline (Exchange.twoClients client)

end OsProgramming.Servers.UdpConnect
